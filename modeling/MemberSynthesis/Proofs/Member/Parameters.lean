import MemberSynthesis.Proofs.Member.Assignment

/-!
# The parameters of the memberwise initializer

The memberwise initializer is meant to have one parameter for each writable field. Whether it has is
a question about its text: its parameter list is read like the argument list of an attribute, from
the bracket in its header to the one that closes it, and split at its commas.

The types of the fields decide. They are spelled, not parsed, and so a type may leave a bracket open
or hold a comma outside all brackets, as `Int, b: String` does. **The items of the list are the
parameters of the fields just when every type is closed** (`Text.IsClosed`). If some type is not,
the list may still have as many items as there are fields, each of which starts as the parameter of
its field does; but then a type contains the name of a field and a colon, and passes for a
parameter.

## Why both directions are long

That closed types give the parameters is an induction over the fields: the scanner comes to the end
of a line with nothing open, and meets a comma there. The converse is harder, because one wrong type
can make up for another. A bracket that one type leaves open is closed by the next, and the two
lines are one item; a comma in a third type splits its line in two, and the count is right again.
What settles it is where the items *start*: an item that begins in the middle of a line begins in a
type, and starts like a parameter only if the type holds the name of a field and a colon. So if no
type does, no line is split (`nesting_of_free`), and a line that is joined with another one leaves
too few items (`length_le_of_piecesFrom`).

The fields need not be known to come from a directive for most of this; that they are spelled is
enough. The last field is needed by name, because a last item that is blank would be dropped, and it
is never blank.
-/

set_option autoImplicit false

namespace MemberSynthesis

namespace Member

/-! ## The parameter list -/

/-- The list of parameters of the memberwise initializer, from the bracket that its header opens to
the one that closes it, is split into one item for each writable field, and the items, trimmed, are
what is said of parameters. The closing bracket is the one that the header ends with. -/
def ListsParameters (schema : Schema) (isParameter : Field → Text → Prop) : Prop :=
  ∃ close items,
    Text.unitEnd ((memberwiseInit schema).text.drop 4) = .ok close ∧
    (memberwiseInit schema).text.take (4 + close) ++ opened ")" =
      memberwiseHeader schema.writable ∧
    Item.split (((memberwiseInit schema).text.drop 5).take (close - 1)) = .ok items ∧
    List.Forall₂ (fun field item => isParameter field item.text.trim) schema.writable items

/-! ## Closed types

From types to items. The scanner goes over a line of a closed type and has nothing entered behind
it, so the next comma splits the list. -/

theorem trim_parameterLine {field : Field} (h : field.IsSpelled) {after : Text}
    (hafter : ∀ c ∈ after, c.isBlank) : (parameterLine field ++ after).trim = parameter field := by
  rw [parameterLine, List.append_assoc]
  exact (isTrimmed_parameter h).trim_append isBlank_of_mem_margin hafter

theorem isPiece_parameterLine {field : Field} (h : field.IsSpelled)
    (hclosed : field.typeName.IsClosed) : Item.IsPiece (parameterLine field) :=
  Opening.isPiece_of_isClosed ((isClosed_parameterLine h).2 hclosed) (quote_not_mem_parameterLine h)

theorem within_parameterLine {field : Field} (h : field.IsSpelled)
    (hclosed : field.typeName.IsClosed) {rest : Text} {outer : List Opening} {offset : Nat}
    (hne : outer ≠ []) (houter : Opening.IsOutside outer) :
    Opening.Within rest outer offset (parameterLine field) outer :=
  Opening.within_of_isClosed ((isClosed_parameterLine h).2 hclosed) (quote_not_mem_parameterLine h)
    hne houter

/-- If all types are closed, the pieces are the parameters, up to the blanks around them. The first
piece is treated apart because it is the one that is being read. -/
theorem piecesFrom_of_isClosed {more : List Field} : ∀ {field : Field} (offset : Nat),
    (∀ other ∈ field :: more, other.IsSpelled ∧ other.typeName.IsClosed) →
    ∃ piece items, Item.piecesFrom [] offset (parameterLine field ++ laterParameters more) =
        .ok (piece, items) ∧ piece.trim = parameter field ∧
      List.Forall₂ (fun other item => item.text.trim = parameter other) more items := by
  induction more with
  | nil =>
    intro field offset h
    obtain ⟨hspelled, hclosed⟩ := h field List.mem_cons_self
    have hpiece := isPiece_parameterLine hspelled hclosed
    have hend : Item.piecesFrom [] (offset + (parameterLine field).length) (laterParameters []) =
        .ok (laterParameters [], []) := rfl
    exact ⟨_, [], hpiece (by decide) hend, trim_parameterLine hspelled (by decide), .nil⟩
  | cons next more ih =>
    intro field offset h
    obtain ⟨hspelled, hclosed⟩ := h field List.mem_cons_self
    have hpiece := isPiece_parameterLine hspelled hclosed
    obtain ⟨piece, items, hitems, htrim, hall⟩ :=
      ih (offset + (parameterLine field).length + 1) fun other hother =>
        h other (List.mem_cons_of_mem field hother)
    -- The comma behind the line is outside all brackets, as the line has closed all of its own.
    have hcomma : Item.piecesFrom [] (offset + (parameterLine field).length)
        (laterParameters (next :: more)) =
        .ok ([], ⟨offset + (parameterLine field).length + 1, piece⟩ :: items) := by
      show Item.piecesFrom [] _
        (CodePoint.scalar ',' :: (parameterLine next ++ laterParameters more)) = _
      rw [Item.piecesFrom, if_pos ⟨rfl, rfl⟩, hitems]
      rfl
    refine ⟨_, _, hpiece ?_ hcomma, trim_parameterLine hspelled (by simp), .cons htrim hall⟩
    show some (CodePoint.scalar ',') ≠ some (CodePoint.scalar '"')
    decide

theorem within_parameters {rest : Text} {outer : List Opening} (hne : outer ≠ [])
    (houter : Opening.IsOutside outer) {more : List Field} : ∀ {field : Field} {offset : Nat},
    (∀ other ∈ field :: more, other.IsSpelled ∧ other.typeName.IsClosed) →
    Opening.Within rest outer offset (parameterLine field ++ laterParameters more) outer := by
  induction more with
  | nil =>
    intro field offset h
    obtain ⟨hspelled, hclosed⟩ := h field List.mem_cons_self
    exact (within_parameterLine hspelled hclosed hne houter).append
      (Opening.within_of_isPlain hne houter (by decide))
  | cons next more ih =>
    intro field offset h
    obtain ⟨hspelled, hclosed⟩ := h field List.mem_cons_self
    refine (within_parameterLine hspelled hclosed hne houter).append
      ((Opening.within_of_isPlain hne houter (by decide)).append ?_)
    exact ih fun other hother => h other (List.mem_cons_of_mem field hother)

/-! ## Only closed types give the parameters

From items to types. An item that is a parameter has as many code points that are no blanks as its
line, so there is nothing else in it. -/

theorem countP_parameterLine (field : Field) :
    (parameterLine field).countP (fun c => !c.isBlank) =
      (parameter field).countP fun c => !c.isBlank := by
  have hmargin : (("\n" : Text) ++ indent).countP (fun c => !c.isBlank) = 0 := by decide
  rw [parameterLine, List.countP_append, hmargin, Nat.zero_add]

/-- If a piece is the parameter whose line it starts with, it does not end in the line, and goes on
after it with blanks only. Were the piece shorter or longer, a code point would be missing or left
over. -/
theorem nesting_of_trim_eq {field : Field} (hfield : field.IsSpelled) {offset : Nat}
    {rest piece : Text} {items : List Item}
    (h : Item.piecesFrom [] offset (parameterLine field ++ rest) = .ok (piece, items))
    (htrim : piece.trim = parameter field) :
    ∃ kinds after ending, Bracket.nesting [] field.typeName = some kinds ∧
      Opening.IsBrackets after kinds ∧ (∀ c ∈ ending, c.isBlank) ∧
      Item.piecesFrom after (offset + (parameterLine field).length) rest = .ok (ending, items) := by
  -- What counts is what is left when the blanks are taken away, of which trimming takes some.
  have hcount : piece.countP (fun c => !c.isBlank) =
      (parameterLine field).countP fun c => !c.isBlank := by
    rw [countP_parameterLine, ← htrim, Text.countP_trim]
  rcases Opening.nesting_of_piecesFrom (quote_not_mem_parameterLine hfield) .nil h with
    ⟨more, item, others, hline, _, _⟩ | ⟨kinds, after, ending, hnesting, hafter, hpiece, hend⟩
  · -- The comma in the line would be missing from the piece.
    rw [hline, List.countP_append, List.countP_cons_of_pos (by decide)] at hcount
    omega
  · rw [nesting_parameterLine hfield] at hnesting
    refine ⟨kinds, after, ending, hnesting, hafter, ?_, hend⟩
    rw [hpiece, List.countP_append, Nat.add_eq_left, List.countP_eq_zero] at hcount
    simpa using hcount

/-- If the pieces are the parameters, all types are closed. By induction over the fields: each line
is one piece, so a comma is split at behind it, which happens only where nothing is open. -/
theorem isClosed_of_piecesFrom {more : List Field} : ∀ {field : Field} {offset : Nat}
    {piece : Text} {items : List Item}, (∀ other ∈ field :: more, other.IsSpelled) →
    Item.piecesFrom [] offset (parameterLine field ++ laterParameters more) = .ok (piece, items) →
    piece.trim = parameter field →
    List.Forall₂ (fun other item => item.text.trim = parameter other) more items →
    ∀ other ∈ field :: more, other.typeName.IsClosed := by
  induction more with
  | nil =>
    intro field offset piece items hspelled h htrim hall
    obtain ⟨kinds, after, ending, hnesting, hafter, _, hend⟩ :=
      nesting_of_trim_eq (hspelled field List.mem_cons_self) h htrim
    have hkinds : kinds = [] := Opening.eq_nil_of_piecesFrom hafter (by decide) hend
    intro other hother
    rw [List.mem_singleton.1 hother, Text.IsClosed, hnesting, hkinds]
  | cons next more ih =>
    intro field offset piece items hspelled h htrim hall
    obtain ⟨kinds, after, ending, hnesting, hafter, hblank, hend⟩ :=
      nesting_of_trim_eq (hspelled field List.mem_cons_self) h htrim
    by_cases hkinds : kinds = []
    · rw [hkinds] at hnesting hafter
      cases hafter
      -- Nothing is open at the comma: the line is closed, and the next one starts a piece.
      obtain ⟨inner, others, _, rfl, hmore⟩ := Opening.piecesFrom_comma_nil hend
      cases hall with
      | cons hnext hall =>
        intro other hother
        rcases List.mem_cons.1 hother with rfl | hother
        · exact hnesting
        · exact ih (fun other hother => hspelled other (List.mem_cons_of_mem field hother)) hmore
            hnext hall other hother
    · -- The comma after the line would belong to the piece.
      obtain ⟨tail, rfl, _⟩ := Opening.piecesFrom_comma hafter hkinds hend
      have hcomma := hblank (CodePoint.scalar ',') List.mem_cons_self
      cases hcomma

/-! ## Types that pass for parameters

Here the items are only known to *start* like parameters. A start of a parameter is a name, a colon
and a space; in a line there is one in front of the type, and any other lies in the type itself. -/

theorem exists_of_append_eq_left {x y p r : Text} {c : CodePoint} (hx : c ∉ x)
    (h : x ++ y = p ++ c :: r) : ∃ b, y = b ++ c :: r := by
  rcases List.append_eq_append_iff.1 h with ⟨b, _, hy⟩ | ⟨b, hxb, hr⟩
  · exact ⟨b, hy⟩
  · cases b with
    | nil => exact ⟨[], hr.symm⟩
    | cons d b =>
      cases hr
      exact absurd (by simp [hxb]) hx

theorem exists_of_append_eq_right {y z p r : Text} {c : CodePoint} (hz : c ∉ z)
    (h : y ++ z = p ++ c :: r) : ∃ a, y = p ++ c :: a ∧ r = a ++ z := by
  rcases List.append_eq_append_iff.1 h with ⟨b, _, hzb⟩ | ⟨b, hy, hr⟩
  · exact absurd (by simp [hzb]) hz
  · cases b with
    | nil =>
      rw [List.nil_append] at hr
      exact absurd (by simp [← hr]) hz
    | cons d b =>
      cases hr
      exact ⟨b, hy, rfl⟩

/-- What follows a type in the parameter list ends every name and every space after a colon. -/
theorem head?_ending_append (field : Field) (more : List Field) :
    parameterEnding field ++ laterParameters more = "\n" ∨
      ∃ c rest, parameterEnding field ++ laterParameters more = c :: rest ∧
        (c = '?' ∨ c = ',') := by
  rw [parameterEnding]
  split
  · exact .inr ⟨_, _, rfl, .inl rfl⟩
  · cases more with
    | nil => exact .inl rfl
    | cons next more => exact .inr ⟨_, _, rfl, .inr rfl⟩

theorem not_mem_parameterStart {field : Field} (h : field.IsSpelled) {c : CodePoint}
    (hc : c = '?' ∨ c = ',') {blanks : Text} (hblanks : ∀ d ∈ blanks, d.isBlank) :
    c ∉ blanks ++ parameterStart field := by
  have hblank : c.isBlank = false := by rcases hc with rfl | rfl <;> rfl
  have hword : c.isWord = false := by rcases hc with rfl | rfl <;> rfl
  have hcolon : c ∉ (": " : Text) := by rcases hc with rfl | rfl <;> decide
  simp only [parameterStart, List.mem_append, not_or]
  refine ⟨fun hmem => ?_, Text.not_mem_of_isIdentifier h.name hword, hcolon⟩
  rw [hblanks c hmem] at hblank
  cases hblank

/-- If an item that starts after a comma in a type starts like a parameter, it does so in the type.
The start can not reach beyond the type, for what follows it goes on with neither a name nor a
colon. -/
theorem isInfix_of_comma {field other : Field} (hother : other.IsSpelled) {more : List Field}
    {piece rest text : Text} (hline : parameterLine field = piece ++ CodePoint.scalar ',' :: rest)
    (hstart : ∀ c ∈ ("\n" : Text) ++ indent ++ field.name ++ ": ", Opening.isPlain c ∧ c ≠ ',')
    (htext : text <+: rest ++ laterParameters more)
    (hparameter : parameterStart other <+: text.trim) :
    parameterStart other <:+: field.typeName := by
  rw [parameterLine_eq] at hline
  obtain ⟨b, hb⟩ := exists_of_append_eq_left (fun hmem => (hstart _ hmem).2 rfl) hline
  obtain ⟨a, htype, rfl⟩ := exists_of_append_eq_right
    (fun hmem => (isPlain_of_mem_ending _ hmem).2 rfl) hb
  obtain ⟨blanks, hblanks, hbefore⟩ := Text.exists_of_isPrefix_trim hparameter
  have hall := hbefore.trans htext
  rw [List.append_assoc] at hall
  -- What starts behind a comma in the type and ends in the type is written in the type.
  have hinfix : blanks ++ parameterStart other <+: a →
      parameterStart other <:+: field.typeName := by
    intro hstarts
    have htail : a <:+ field.typeName := ⟨b ++ [CodePoint.scalar ','], by rw [htype]; simp⟩
    exact (List.suffix_append blanks _).isInfix.trans (hstarts.isInfix.trans htail.isInfix)
  rcases List.prefix_or_prefix_of_prefix hall (List.prefix_append a _) with
    hshort | ⟨beyond, hbeyond⟩
  · exact hinfix hshort
  · -- What reaches beyond the type starts with what follows the type.
    rw [← hbeyond, List.prefix_append_right_inj] at hall
    cases beyond with
    | nil => exact hinfix ⟨[], by rw [← hbeyond, List.append_nil, List.append_nil]⟩
    | cons d beyond =>
      rcases head?_ending_append field more with hfeed | ⟨c, tail, hrest, hc⟩
      · rw [hfeed] at hall
        obtain ⟨rfl, hnil⟩ : d = CodePoint.scalar '\n' ∧ beyond <+: [] :=
          List.cons_prefix_cons.1 hall
        rw [List.prefix_nil.1 hnil, parameterStart] at hbeyond
        -- It can not end with the line feed behind the type, as it ends with a space.
        have hlast := congrArg List.getLast? hbeyond
        have hspace : (blanks ++ (other.name ++ (": " : Text))).getLast? =
            some (CodePoint.scalar ' ') := by
          have hcolon : (": " : Text) = [CodePoint.scalar ':'] ++ [CodePoint.scalar ' '] := rfl
          rw [hcolon, ← List.append_assoc, ← List.append_assoc, List.getLast?_concat]
        rw [hspace, List.getLast?_concat] at hlast
        cases hlast
      · rw [hrest, List.cons_prefix_cons] at hall
        have hmem : c ∈ blanks ++ parameterStart other := by
          rw [← hbeyond, hall.1]
          simp
        exact absurd hmem (not_mem_parameterStart hother hc hblanks)

/-- A type that contains no start of a parameter is not split, whatever is open before it: a piece
that ended in it would be followed by an item that starts in it. -/
theorem nesting_of_free {all more : List Field} {field : Field} {entered : List Opening}
    {kinds : List Bracket} {offset : Nat} {piece : Text} {items : List Item}
    (hall : ∀ other ∈ all, other.IsSpelled) (hfield : field.IsSpelled)
    (hfree : ∀ other ∈ all, ¬ parameterStart other <:+: field.typeName)
    (hentered : Opening.IsBrackets entered kinds)
    (h : Item.piecesFrom entered offset (parameterLine field ++ laterParameters more) =
      .ok (piece, items))
    (hitems : ∀ item ∈ items, ∃ other ∈ all, parameterStart other <+: item.text.trim) :
    ∃ next after ending, Bracket.nesting kinds field.typeName = some next ∧
      Opening.IsBrackets after next ∧
      Item.piecesFrom after (offset + (parameterLine field).length) (laterParameters more) =
        .ok (ending, items) := by
  rcases Opening.nesting_of_piecesFrom (quote_not_mem_parameterLine hfield) hentered h with
    ⟨rest, item, others, hline, rfl, hitem⟩ | ⟨next, after, ending, hnesting, hafter, _, hend⟩
  · obtain ⟨other, hother, hstart⟩ := hitems item List.mem_cons_self
    exact absurd (isInfix_of_comma (hall other hother) hline (isPlain_of_mem_start hfield) hitem
      hstart) (hfree other hother)
  · rw [nesting_parameterLine hfield] at hnesting
    exact ⟨next, after, ending, hnesting, hafter, hend⟩

/-- If every item after the first starts as the parameter of some field, and no type contains the
start of one, there are no more items than fields; and if there are as many, all types are
closed. -/
theorem length_le_of_piecesFrom {all : List Field} (hall : ∀ other ∈ all, other.IsSpelled)
    {more : List Field} : ∀ {field : Field} {entered : List Opening} {kinds : List Bracket}
    {offset : Nat} {piece : Text} {items : List Item},
    (∀ one ∈ field :: more, one.IsSpelled ∧
      ∀ other ∈ all, ¬ parameterStart other <:+: one.typeName) →
    Opening.IsBrackets entered kinds →
    Item.piecesFrom entered offset (parameterLine field ++ laterParameters more) =
      .ok (piece, items) →
    (∀ item ∈ items, ∃ other ∈ all, parameterStart other <+: item.text.trim) →
    items.length ≤ more.length ∧
      (items.length = more.length → kinds = [] → ∀ one ∈ field :: more, one.typeName.IsClosed) := by
  induction more with
  | nil =>
    intro field entered kinds offset piece items hfree hentered h hitems
    obtain ⟨hspelled, hnone⟩ := hfree field List.mem_cons_self
    obtain ⟨next, after, ending, hnesting, hafter, hend⟩ :=
      nesting_of_free hall hspelled hnone hentered h hitems
    -- The last parameter: no comma follows, and what it leaves open is never closed.
    obtain ⟨_, rfl⟩ := Opening.piecesFrom_of_not_mem (by decide) hend
    have hnext : next = [] := Opening.eq_nil_of_piecesFrom hafter (by decide) hend
    refine ⟨Nat.le_refl 0, fun _ hkinds one hone => ?_⟩
    rw [List.mem_singleton.1 hone, Text.IsClosed, ← hkinds, hnesting, hnext, hkinds]
  | cons next more ih =>
    intro field entered kinds offset piece items hfree hentered h hitems
    obtain ⟨hspelled, hnone⟩ := hfree field List.mem_cons_self
    have hfree' := fun one hone => hfree one (List.mem_cons_of_mem field hone)
    obtain ⟨open', after, ending, hnesting, hafter, hend⟩ :=
      nesting_of_free hall hspelled hnone hentered h hitems
    by_cases hopen : open' = []
    · -- The comma after the parameter ends the piece.
      rw [hopen] at hnesting hafter
      cases hafter
      obtain ⟨inner, others, _, rfl, hmore⟩ := Opening.piecesFrom_comma_nil hend
      obtain ⟨hle, hclosed⟩ := ih hfree' .nil hmore
        fun item hitem => hitems item (List.mem_cons_of_mem _ hitem)
      refine ⟨Nat.succ_le_succ hle, fun hlength hkinds one hone => ?_⟩
      rcases List.mem_cons.1 hone with rfl | hone
      · rw [Text.IsClosed, ← hkinds, hnesting, hkinds]
      · exact hclosed (Nat.succ.inj hlength) rfl one hone
    · -- It is missing from the commas that end pieces.
      obtain ⟨inner, _, hmore⟩ := Opening.piecesFrom_comma hafter hopen hend
      obtain ⟨hle, _⟩ := ih hfree' hafter hmore hitems
      refine ⟨Nat.le_succ_of_le hle, fun hlength => ?_⟩
      rw [hlength, List.length_cons] at hle
      exact absurd hle (Nat.not_succ_le_self _)

/-! ## The list in the text of the member

What was said of the text between the brackets becomes a statement on the text of the member: four
code points before the opening bracket, and the closing one where the list ends. -/

theorem exists_laterParameters_eq (middle : List Field) :
    ∃ before, laterParameters (middle ++ [Schema.lastField]) =
      before ++ (parameterLine Schema.lastField ++ "\n") := by
  induction middle with
  | nil => exact ⟨",", rfl⟩
  | cons field more ih =>
    obtain ⟨before, hbefore⟩ := ih
    refine ⟨"," ++ (parameterLine field ++ before), ?_⟩
    rw [List.cons_append, laterParameters, hbefore]
    simp only [List.append_assoc]

/-- The last item is never left out, since the last field leaves something to read. So splitting
gives the first piece and the items behind it. -/
theorem split_parameters {field : Field} {middle : List Field} {items : List Item} :
    Item.split (parameterLine field ++ laterParameters (middle ++ [Schema.lastField])) = .ok items ↔
      ∃ piece others, items = ⟨0, piece⟩ :: others ∧
        Item.piecesFrom [] 0 (parameterLine field ++
          laterParameters (middle ++ [Schema.lastField])) =
          .ok (piece, others) := by
  -- The last piece is never blank: it ends with the last parameter, which is always the same.
  have hkept : ∀ {piece : Text} {others : List Item},
      Item.piecesFrom [] 0 (parameterLine field ++ laterParameters (middle ++ [Schema.lastField])) =
        .ok (piece, others) →
      Item.withoutBlankLast (⟨0, piece⟩ :: others) = ⟨0, piece⟩ :: others := by
    intro piece others hpieces
    obtain ⟨before, hbefore⟩ := exists_laterParameters_eq middle
    rw [hbefore, ← List.append_assoc] at hpieces
    obtain ⟨honly, hlast⟩ := Opening.isSuffix_of_piecesFrom (by decide) hpieces
    have hblank : ∀ {text : Text}, parameterLine Schema.lastField ++ ("\n" : Text) <:+ text →
        text.all CodePoint.isBlank = false := by
      rintro _ ⟨start, rfl⟩
      have hlast : (parameterLine Schema.lastField ++ ("\n" : Text)).all CodePoint.isBlank =
          false := by
        decide
      rw [List.all_append, hlast, Bool.and_false]
    apply Item.withoutBlankLast_eq_self
    intro item hitem
    cases others with
    | nil =>
      cases hitem
      exact hblank (honly rfl)
    | cons other others => exact hblank (hlast item (by rwa [List.getLast?_cons_cons] at hitem))
  rw [Item.split, Reading.bind_eq_ok]
  constructor
  · rintro ⟨⟨piece, others⟩, hpieces, h⟩
    cases h
    exact ⟨piece, others, hkept hpieces, hpieces⟩
  · rintro ⟨piece, others, rfl, hpieces⟩
    exact ⟨(piece, others), hpieces, congrArg Except.ok (hkept hpieces)⟩

theorem exists_memberwiseInit_text_eq (schema : Schema) :
    ∃ tail, (memberwiseInit schema).text =
      "init(" ++ (parameterList schema.writable ++ (opened ")" ++ tail)) := by
  obtain ⟨tail, htail⟩ : ∃ tail, (memberwiseInit schema).text =
      memberwiseHeader schema.writable ++ tail :=
    ⟨_, Text.stacked_cons (by simp)⟩
  refine ⟨tail, ?_⟩
  rw [htail, memberwiseHeader_eq]
  simp only [List.append_assoc]

/-- The closing bracket is the one the header ends with just when it follows the list. This is how
the definition rules out a bracket in a type that closes the list too early. -/
theorem take_append_eq_memberwiseHeader_iff {schema : Schema} {close : Nat} :
    (memberwiseInit schema).text.take (4 + close) ++ opened ")" = memberwiseHeader schema.writable ↔
      close = 1 + (parameterList schema.writable).length := by
  obtain ⟨tail, htail⟩ := exists_memberwiseInit_text_eq schema
  have hheader : memberwiseHeader schema.writable =
      ("init(" ++ parameterList schema.writable) ++ opened ")" := by
    rw [memberwiseHeader_eq, List.append_assoc]
  have htext : (memberwiseInit schema).text =
      ("init(" ++ parameterList schema.writable) ++ (opened ")" ++ tail) := by
    rw [htail, List.append_assoc]
  have hlength : (("init(" : Text) ++ parameterList schema.writable).length =
      4 + (1 + (parameterList schema.writable).length) := by
    rw [List.length_append, ← Nat.add_assoc]
    rfl
  rw [hheader, htext, List.append_left_inj]
  constructor
  · intro h
    have htaken := congrArg List.length h
    rw [List.length_take, List.length_append, hlength] at htaken
    have hlonger : 0 < (opened ")" ++ tail).length :=
      List.length_pos_of_ne_nil (List.cons_ne_nil _ _)
    omega
  · rintro rfl
    exact List.take_left' hlength

theorem take_drop_text (schema : Schema) :
    ((memberwiseInit schema).text.drop 5).take (parameterList schema.writable).length =
      parameterList schema.writable := by
  obtain ⟨tail, htail⟩ := exists_memberwiseInit_text_eq schema
  have hdrop : (memberwiseInit schema).text.drop 5 =
      parameterList schema.writable ++ (opened ")" ++ tail) := by
    rw [htail]
    exact List.drop_left' rfl
  rw [hdrop, List.take_left]

/-- **What is said of the parameters is said of the items that the text between the brackets is
split into**, provided that the closing bracket is found. -/
theorem listsParameters_iff {schema : Schema} {isParameter : Field → Text → Prop} :
    ListsParameters schema isParameter ↔
      Text.unitEnd ((memberwiseInit schema).text.drop 4) =
          .ok (1 + (parameterList schema.writable).length) ∧
        ∃ items, Item.split (parameterList schema.writable) = .ok items ∧
          List.Forall₂ (fun field item => isParameter field item.text.trim) schema.writable
            items := by
  constructor
  · rintro ⟨close, items, hclose, hheader, hsplit, hall⟩
    rw [take_append_eq_memberwiseHeader_iff] at hheader
    rw [hheader, Nat.add_sub_cancel_left, take_drop_text] at hsplit
    exact ⟨hheader ▸ hclose, items, hsplit, hall⟩
  · rintro ⟨hclose, items, hsplit, hall⟩
    refine ⟨_, items, hclose, take_append_eq_memberwiseHeader_iff.2 rfl, ?_, hall⟩
    rw [Nat.add_sub_cancel_left, take_drop_text, hsplit]

theorem unitEnd_of_isClosed {schema : Schema} (hmade : schema.WellMade)
    (hclosed : ∀ field ∈ schema.writable, field.typeName.IsClosed) :
    Text.unitEnd ((memberwiseInit schema).text.drop 4) =
      .ok (1 + (parameterList schema.writable).length) := by
  obtain ⟨tail, htail⟩ := exists_memberwiseInit_text_eq schema
  have hdrop : (memberwiseInit schema).text.drop 4 =
      CodePoint.scalar '(' :: (parameterList schema.writable ++
        CodePoint.scalar ')' :: CodePoint.scalar ' ' :: CodePoint.scalar '\x7b' :: tail) := by
    rw [htail]
    rfl
  have hgroup : Opening.IsGroup (CodePoint.scalar ' ' :: CodePoint.scalar '\x7b' :: tail) [] 0
      (CodePoint.scalar '(') (parameterList schema.writable) (CodePoint.scalar ')') := by
    refine ⟨.bracket .round 0, rfl, ?_, rfl⟩
    obtain ⟨field, middle, hwritable⟩ := hmade.exists_writable_eq_cons
    rw [hwritable] at hclosed ⊢
    refine within_parameters (List.cons_ne_nil _ _) Opening.isOutside_bracket ?_
    intro other hother
    exact ⟨hmade.isSpelled_of_mem_writable (hwritable ▸ hother), hclosed other hother⟩
  rw [hdrop, Text.unitEnd, hgroup.unitEndFrom, Nat.zero_add]

theorem listsParameters_of_isClosed {schema : Schema} (hmade : schema.WellMade)
    (hclosed : ∀ field ∈ schema.writable, field.typeName.IsClosed) :
    ListsParameters schema fun field text => text = parameter field := by
  refine listsParameters_iff.2 ⟨unitEnd_of_isClosed hmade hclosed, ?_⟩
  obtain ⟨field, middle, hwritable⟩ := hmade.exists_writable_eq_cons
  have hall : ∀ other ∈ field :: (middle ++ [Schema.lastField]),
      other.IsSpelled ∧ other.typeName.IsClosed := by
    rw [← hwritable]
    exact fun other hother => ⟨hmade.isSpelled_of_mem_writable hother, hclosed other hother⟩
  obtain ⟨piece, items, hpieces, htrim, hitems⟩ := piecesFrom_of_isClosed 0 hall
  rw [hwritable]
  exact ⟨_, split_parameters.2 ⟨piece, items, rfl, hpieces⟩, .cons htrim hitems⟩

theorem isClosed_of_listsParameters {schema : Schema} (hmade : schema.WellMade)
    (h : ListsParameters schema fun field text => text = parameter field) :
    ∀ field ∈ schema.writable, field.typeName.IsClosed := by
  obtain ⟨_, items, hsplit, hall⟩ := listsParameters_iff.1 h
  have hspelled : ∀ field ∈ schema.writable, field.IsSpelled :=
    fun field hfield => hmade.isSpelled_of_mem_writable hfield
  obtain ⟨field, middle, hwritable⟩ := hmade.exists_writable_eq_cons
  rw [hwritable] at hsplit hall hspelled ⊢
  obtain ⟨piece, others, rfl, hpieces⟩ := split_parameters.1 hsplit
  cases hall with
  | cons htrim hall => exact isClosed_of_piecesFrom hspelled hpieces htrim hall

/-- If the items start like the parameters, all types are closed, unless a type passes for one. -/
theorem isClosed_or_of_listsParameters {schema : Schema} (hmade : schema.WellMade)
    (h : ListsParameters schema fun field text => parameterStart field <+: text) :
    (∀ field ∈ schema.writable, field.typeName.IsClosed) ∨
      ∃ field ∈ schema.writable, ∃ other ∈ schema.writable,
        parameterStart other <:+: field.typeName := by
  rw [or_iff_not_imp_right]
  intro hnone
  obtain ⟨_, items, hsplit, hall⟩ := listsParameters_iff.1 h
  have hspelled : ∀ field ∈ schema.writable, field.IsSpelled :=
    fun field hfield => hmade.isSpelled_of_mem_writable hfield
  have hfree : ∀ field ∈ schema.writable, field.IsSpelled ∧
      ∀ other ∈ schema.writable, ¬ parameterStart other <:+: field.typeName :=
    fun field hfield => ⟨hspelled field hfield,
      fun other hother hinfix => hnone ⟨field, hfield, other, hother, hinfix⟩⟩
  obtain ⟨field, middle, hwritable⟩ := hmade.exists_writable_eq_cons
  rw [hwritable] at hsplit hall hspelled hfree ⊢
  obtain ⟨piece, others, rfl, hpieces⟩ := split_parameters.1 hsplit
  have hitems : ∀ item ∈ others, ∃ other ∈ field :: (middle ++ [Schema.lastField]),
      parameterStart other <+: item.text.trim :=
    fun item hitem => Outcome.exists_of_mem_of_forall₂ hall item (List.mem_cons_of_mem _ hitem)
  obtain ⟨_, hclosed⟩ := length_le_of_piecesFrom hspelled hfree .nil hpieces hitems
  exact hclosed (Nat.succ.inj hall.length_eq).symm rfl

end Member

namespace Directive

open Member

/-- **The memberwise initializer has one parameter for each writable field just when every type is
closed.** Then each item starts with the name of its field and a colon. If the items do so although
some type is not closed, a type contains the name of a field, a colon and a space. Whatever the
types are, every writable field is assigned in one line, besides those of the statements. -/
theorem listsParameters_iff_of_interpret {directive : Attribute} {declaration : Declaration}
    {schema : Schema} (h : interpret directive declaration = .ok schema) :
    ((ListsParameters schema fun field text => text = parameter field) ↔
      ∀ field ∈ schema.writable, field.typeName.IsClosed) ∧
    ((∀ field ∈ schema.writable, field.typeName.IsClosed) →
      ListsParameters schema fun field text => field.name ++ (": " : Text) <+: text) ∧
    ((ListsParameters schema fun field text => field.name ++ (": " : Text) <+: text) →
      (∀ field ∈ schema.writable, field.typeName.IsClosed) ∨
        ∃ field ∈ schema.writable, ∃ other ∈ schema.writable,
          other.name ++ (": " : Text) <:+: field.typeName) ∧
    ∀ field ∈ schema.writable,
      (memberwiseInit schema).text.feedLines.count (Text.indented indent (assignmentLine field)) =
        1 + schema.initializerLines.count (assignmentLine field) := by
  have hmade := Schema.wellMade_of_interpret h
  refine ⟨⟨isClosed_of_listsParameters hmade, listsParameters_of_isClosed hmade⟩, ?_,
    isClosed_or_of_listsParameters hmade, fun field hfield => count_assignmentLine hmade hfield⟩
  intro hclosed
  obtain ⟨close, items, hclose, hheader, hsplit, hall⟩ := listsParameters_of_isClosed hmade hclosed
  refine ⟨close, items, hclose, hheader, hsplit, hall.imp fun field item htrim => ?_⟩
  rw [htrim]
  exact parameterStart_isPrefix field

/-- A recipe with an amount for each ingredient: the comma of its type stands in brackets. -/
def Content.amounts : Content where
  comparable := []
  descriptors := ["amounts: [(String, Int)]?"]
  own := [⟨"amounts", "[(String, Int)]", true, false⟩]
  statements := []

theorem listsParameters_amounts :
    ∃ schema, interpret Content.amounts.directive ⟨.classType, "Recipe"⟩ = .ok schema ∧
      ListsParameters schema (fun field text => text = parameter field) ∧
      ListsParameters schema fun field text => field.name ++ (": " : Text) <+: text := by
  have hinterpret : interpret Content.amounts.directive ⟨.classType, "Recipe"⟩ =
      .ok (Content.amounts.schema ⟨.classType, "Recipe"⟩) :=
    interpret_directive (by decide) (.cons (by decide +kernel) .nil) (by decide +kernel)
  have hclosed : ∀ field ∈ (Content.amounts.schema ⟨.classType, "Recipe"⟩).writable,
      field.typeName.IsClosed := by
    decide +kernel
  obtain ⟨hiff, hstarts, _⟩ := listsParameters_iff_of_interpret hinterpret
  exact ⟨_, hinterpret, hiff.2 hclosed, hstarts hclosed⟩

/-- One field, whose type looks like a type and another field. -/
def Content.twoInOne : Content where
  comparable := []
  descriptors := ["a: Int, b: String"]
  own := [⟨"a", "Int, b: String", false, false⟩]
  statements := []

/-- **The one field gives two parameters**, and the list has one item more than there are writable
fields. -/
theorem not_listsParameters_twoInOne :
    ∃ schema, interpret Content.twoInOne.directive ⟨.classType, "Recipe"⟩ = .ok schema ∧
      ¬ ListsParameters schema fun field text => field.name ++ (": " : Text) <+: text := by
  refine ⟨Content.twoInOne.schema ⟨.classType, "Recipe"⟩,
    interpret_directive (by decide) (.cons (by decide +kernel) .nil) (by decide +kernel), ?_⟩
  intro h
  obtain ⟨_, items, hsplit, hall⟩ := listsParameters_iff.1 h
  -- There are seven items for six fields.
  have hseven : (Item.split (parameterList (Content.twoInOne.schema
      ⟨.classType, "Recipe"⟩).writable)).toOption.map List.length = some 7 := by
    decide +kernel
  have hsix : (Content.twoInOne.schema ⟨.classType, "Recipe"⟩).writable.length = 6 := by
    decide +kernel
  rw [hsplit, Except.toOption, Option.map_some, ← hall.length_eq, hsix] at hseven
  cases hseven

end Directive

end MemberSynthesis
