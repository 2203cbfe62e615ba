import MemberSynthesis.Proofs.Source.Grammar
import MemberSynthesis.Proofs.Source.Pieces
import MemberSynthesis.Proofs.Source.Placement
import MemberSynthesis.Source.Expression

/-!
# Lists and what they list

A list is read by cutting its inside at the commas and reading each piece on its own. A text can be
an item of a list when it is **undivided** (`Text.IsUndivided`): it is balanced, and each comma in
it stands inside a bracket or a string. Wherever such texts are written one after the other with
commas between them, the cut finds them again, each at its offset (`Item.split_listed`).

So **reading a list is reading its items** (`Expression.read_bracketed`), and nothing that stands
around an item has a say in what is read from it, except that blanks shift its faults
(`Expression.read_padded`). How a list is laid out is the subject of `Listing`: blanks around the
entries, and possibly a comma behind the last one.

## The blank piece at the end

A list may end with a comma, and then the cut leaves a blank piece behind it. That piece is dropped,
but only there: a blank piece before a comma is an item, and one that can not be read. A layout
therefore has its `ending` apart from its entries, and an entry is filled, with blanks around it and
not in place of it. Where there are no entries, the blanks between the brackets are the ending
themselves, and no comma belongs to them.
-/

set_option autoImplicit false

namespace MemberSynthesis

/-! ## Undivided texts

Two ways to say the same: declaratively, by what stands before each comma, and by running the
scanner. Statements about lists use the first, and `decide` the second. -/

/-- The text is balanced, and no comma stands in it outside brackets and strings: what precedes a
comma leaves something open. -/
structure Text.IsUndivided (text : Text) : Prop where
  balanced : text.IsBalanced
  comma : ∀ before after : Text, text = before ++ CodePoint.scalar ',' :: after →
    ¬ before.IsBalanced

namespace Opening

variable {entered : List Opening} {offset : Nat} {text rest piece : Text} {items : List Item}

/-- What is gone over without a comma on the way where nothing is entered belongs to one piece, and
this goes on behind it. -/
theorem piecesFrom_of_passes (h : Passes rest entered offset text [])
    (hcomma : ∀ before after, text = before ++ CodePoint.scalar ',' :: after →
      ¬ Passes (CodePoint.scalar ',' :: (after ++ rest)) entered offset before [])
    (hrest : Item.piecesFrom [] (offset + text.length) rest = .ok (piece, items)) :
    Item.piecesFrom entered offset (text ++ rest) = .ok (text ++ piece, items) := by
  -- By induction on the text: a comma may come only where something is entered.
  induction text generalizing entered offset with
  | nil =>
    cases h
    exact hrest
  | cons c more ih =>
    cases h with
    | @cons _ next _ _ _ _ hstep hmore =>
      have hhere : ¬ (entered.isEmpty ∧ c = ',') := by
        rintro ⟨hempty, rfl⟩
        rw [List.isEmpty_iff] at hempty
        subst hempty
        exact hcomma [] more rfl .nil
      have hlater : ∀ before after, more = before ++ CodePoint.scalar ',' :: after →
          ¬ Passes (CodePoint.scalar ',' :: (after ++ rest)) next (offset + 1) before [] := by
        rintro before after rfl hbefore
        rw [List.append_assoc] at hstep
        exact hcomma (c :: before) after rfl (.cons hstep hbefore)
      rw [List.length_cons, Nat.add_comm _ 1, ← Nat.add_assoc] at hrest
      rw [List.cons_append, Item.piecesFrom, if_neg hhere, hstep]
      show (Item.piecesFrom next (offset + 1) (more ++ rest) >>= _) = _
      rw [ih hmore hlater hrest]
      rfl

/-- The other way round, a text that is one piece is gone over to its end, without such a comma. -/
theorem passes_of_piecesFrom (h : Item.piecesFrom entered offset text = .ok (text, [])) :
    Passes [] entered offset text [] ∧
      ∀ before after, text = before ++ CodePoint.scalar ',' :: after →
        ¬ Passes (CodePoint.scalar ',' :: after) entered offset before [] := by
  induction text generalizing entered offset with
  | nil =>
    unfold Item.piecesFrom at h
    split at h
    · rename_i hempty
      rw [List.isEmpty_iff.1 hempty]
      refine ⟨.nil, fun before after hnil => ?_⟩
      cases before <;> cases hnil
    · cases h
  | cons c rest ih =>
    rw [Item.piecesFrom] at h
    split at h
    -- A comma here would have started another piece.
    · obtain ⟨_, _, hpieces⟩ := Reading.bind_eq_ok.1 h
      cases hpieces
    · rename_i hhere
      obtain ⟨next, hstep, hnext⟩ := Reading.bind_eq_ok.1 h
      obtain ⟨⟨piece, more⟩, hpieces, hsame⟩ := Reading.bind_eq_ok.1 hnext
      cases hsame
      obtain ⟨hpasses, hcomma⟩ := ih hpieces
      refine ⟨.cons (by rwa [List.append_nil]) hpasses, fun before after htext hbefore => ?_⟩
      cases before with
      | nil =>
        cases htext
        cases hbefore
        exact hhere ⟨rfl, rfl⟩
      | cons d before =>
        have hrest : rest = before ++ CodePoint.scalar ',' :: after := (List.cons.inj htext).2
        obtain rfl : c = d := (List.cons.inj htext).1
        cases hbefore with
        | cons hother hmore =>
          -- The scanner is in one state behind a code point, whichever way it was gone over.
          rw [← hrest, hstep] at hother
          cases hother
          exact hcomma before after hrest hmore

end Opening

namespace Text

/-- An undivided text is the only piece of itself. That can be tested. -/
theorem isUndivided_iff {text : Text} :
    text.IsUndivided ↔ Item.piecesFrom [] 0 text = .ok (text, []) := by
  constructor
  · intro h
    have hend : Item.piecesFrom [] (0 + text.length) [] = .ok ([], []) := rfl
    have hpieces := Opening.piecesFrom_of_passes h.balanced (fun before after htext hbefore =>
      h.comma before after htext (isBalanced_of_passes hbefore)) hend
    rwa [List.append_nil] at hpieces
  · intro h
    obtain ⟨hpasses, hcomma⟩ := Opening.passes_of_piecesFrom h
    exact ⟨hpasses, fun before after htext hbefore => hcomma before after htext
      (hbefore.append_text (by simp))⟩

instance (text : Text) : Decidable text.IsUndivided :=
  @decidable_of_iff' _ _ isUndivided_iff (decidableEqExcept _ _)

end Text

namespace Item

variable {texts : List Text} {offset : Nat}

/-- **A text is undivided just when no piece of a list ends in it**, whatever list it is written
in. -/
theorem isPiece_iff {text : Text} : IsPiece text ↔ text.IsUndivided := by
  constructor
  · intro h
    have hend : piecesFrom [] (0 + text.length) [] = .ok ([], []) := rfl
    have hpieces := h (by simp) hend
    rw [List.append_nil] at hpieces
    exact Text.isUndivided_iff.2 hpieces
  · intro h rest piece items offset hquote hrest
    have hpasses := Grammar.passes_of_isBalanced h.balanced hquote offset
    refine Opening.piecesFrom_of_passes hpasses (fun before after htext hbefore => ?_) hrest
    exact h.comma before after htext (Text.isBalanced_of_passes hbefore)

theorem isPiece_nil : IsPiece [] := fun _ _ _ _ _ hrest => hrest

/-- Code points that neither open nor close anything and are no commas can stand around a piece, and
belong to it. -/
theorem isPiece_surround {before text after : Text}
    (hbefore : ∀ c ∈ before, Opening.isPlain c ∧ c ≠ ',')
    (hafter : ∀ c ∈ after, Opening.isPlain c ∧ c ≠ ',') (h : IsPiece text) :
    IsPiece (before ++ (text ++ after)) := by
  refine isPiece_append hbefore fun rest piece items offset hquote hrest => ?_
  rw [List.length_append, ← Nat.add_assoc] at hrest
  have hend := isPiece_append hafter isPiece_nil hquote (by rwa [List.append_nil])
  rw [List.append_nil] at hend
  rw [List.append_assoc, List.append_assoc]
  refine h ?_ hend
  cases after with
  | nil => exact hquote
  | cons c more =>
    rintro hc
    cases hc
    exact absurd (hafter _ List.mem_cons_self).1 (by decide)

/-- Blanks can be an item. -/
theorem isUndivided_of_isBlank {text : Text} (h : ∀ c ∈ text, c.isBlank) : text.IsUndivided := by
  have hpiece := isPiece_append (fun c hc => Opening.isPlain_of_isBlank (h c hc)) isPiece_nil
  rw [List.append_nil] at hpiece
  exact isPiece_iff.1 hpiece

/-! ## Lists of texts

The offsets of the items. Each is the length of what precedes the item, commas included, and so it
is determined by the texts. -/

/-- What precedes a text in a list: other texts, a comma behind each. -/
def preceding (texts : List Text) : Text := texts.flatMap fun text => text ++ ","

theorem add_length_preceding (offset : Nat) (text : Text) (more : List Text) :
    offset + (preceding (text :: more)).length =
      offset + text.length + 1 + (preceding more).length := by
  simp only [preceding, List.flatMap_cons, List.length_append]
  show offset + (text.length + 1 + _) = _
  omega

theorem placed_append (before after : List Text) :
    placed offset (before ++ after) =
      placed offset before ++ placed (offset + (preceding before).length) after := by
  induction before generalizing offset with
  | nil => rfl
  | cons text more ih =>
    rw [List.cons_append, placed, ih, add_length_preceding]
    rfl

theorem text_mem_of_mem_placed {item : Item} (h : item ∈ placed offset texts) :
    item.text ∈ texts := by
  obtain ⟨text, htext, rfl⟩ := Outcome.exists_of_mem_of_forall₂
    (p := fun text item => item.text = text)
    forall₂_placed.flip item h
  exact htext

theorem joined_append {before after : List Text} (hafter : after ≠ []) :
    Text.joined "," (before ++ after) = preceding before ++ Text.joined "," after := by
  induction before with
  | nil => rfl
  | cons text more ih =>
    rw [List.cons_append, Text.joined_cons _ _ (by simp [hafter]), ih]
    simp [preceding]

/-- **What is listed with commas is cut apart again**, but for a blank piece at the end. -/
theorem split_listed (h : ∀ text ∈ texts, text.IsUndivided) :
    split (Text.joined "," texts) = .ok (withoutBlankLast (placed 0 texts)) := by
  cases texts with
  | nil => rfl
  | cons text more =>
    rw [split, piecesFrom_listed fun other hother => isPiece_iff.2 (h other hother), placed]
    rfl

/-- A list is balanced if its texts are, as a comma opens and closes nothing. -/
theorem isBalanced_listed (h : ∀ text ∈ texts, text.IsUndivided) :
    Text.IsBalanced (Text.joined "," texts) := by
  induction texts with
  | nil => exact .nil
  | cons text more ih =>
    have htext := (h text List.mem_cons_self).balanced
    have hmore := ih fun other hother => h other (List.mem_cons_of_mem _ hother)
    by_cases hnil : more = []
    · rwa [hnil, Text.joined_singleton]
    · have hcomma : ∀ offset, Opening.Passes [] [] offset ("," ++ Text.joined "," more) [] :=
        fun offset => .cons rfl (Grammar.passes_of_isBalanced hmore (by simp) (offset + 1))
      rw [Text.joined_cons _ _ hnil]
      refine .append (Grammar.passes_of_isBalanced htext ?_ 0) (hcomma _)
      show some (CodePoint.scalar ',') ≠ some (CodePoint.scalar '"')
      decide

/-- The items, each read on its own, with its faults at its place. -/
def readEach {α : Type} (read : Text → Reading α) (items : List Item) : Reading (List α) :=
  items.mapM fun item => Reading.moved item.offset (read item.text)

/-- All can be read just when each one can, and where they stand has no say. -/
theorem readEach_placed_eq_ok_iff {α : Type} {read : Text → Reading α} {values : List α} :
    readEach read (placed offset texts) = .ok values ↔
      List.Forall₂ (fun text value => read text = .ok value) texts values := by
  rw [readEach, Outcome.mapM_eq_ok_iff]
  simp only [Reading.moved_eq_ok]
  induction texts generalizing offset values with
  | nil => simp [placed]
  | cons text more ih => cases values <;> simp [placed, ih]

/-- The first item that cannot be read decides, and its fault is moved to its place. -/
theorem readEach_eq_error {α : Type} {read : Text → Reading α} {before : List Text} {text : Text}
    {after : List Item} {fault : ReadFault}
    (hbefore : ∀ earlier ∈ before, ∃ value, read earlier = .ok value)
    (htext : read text = .error fault) :
    readEach read (placed offset before ++ ⟨offset + (preceding before).length, text⟩ :: after) =
      .error { fault with offset := offset + (preceding before).length + fault.offset } := by
  induction before generalizing offset with
  | nil =>
    rw [placed, List.nil_append, readEach, List.mapM_cons, htext]
    rfl
  | cons earlier more ih =>
    obtain ⟨value, hvalue⟩ := hbefore earlier List.mem_cons_self
    have hmore := @ih (offset + earlier.length + 1) fun other hother =>
      hbefore other (List.mem_cons_of_mem _ hother)
    rw [readEach] at hmore
    rw [add_length_preceding, placed, List.cons_append, readEach, List.mapM_cons, hvalue, hmore]
    rfl

theorem withoutBlankLast_placed (h : ∀ text ∈ texts, text.all CodePoint.isBlank = false) :
    withoutBlankLast (placed offset texts) = placed offset texts :=
  withoutBlankLast_eq_self fun item hitem =>
    h item.text (text_mem_of_mem_placed (List.mem_of_getLast? hitem))

theorem withoutBlankLast_append_of_ne_nil {items more : List Item} (h : more ≠ []) :
    withoutBlankLast (items ++ more) = items ++ withoutBlankLast more := by
  induction items with
  | nil => rfl
  | cons item items ih =>
    obtain ⟨next, rest, hrest⟩ := List.exists_cons_of_ne_nil (l := items ++ more) (by simp [h])
    rw [List.cons_append, hrest, withoutBlankLast, ← hrest, ih, List.cons_append]

theorem withoutBlankLast_append {items : List Item} {text : Text} (h : ∀ c ∈ text, c.isBlank) :
    withoutBlankLast (items ++ [⟨offset, text⟩]) = items := by
  rw [withoutBlankLast_append_of_ne_nil (List.cons_ne_nil _ _), withoutBlankLast,
    if_pos (by simpa using h), List.append_nil]

/-- An item is kept unless it is a blank one and the last. -/
theorem exists_withoutBlankLast_eq (offset : Nat) (before : List Text) {after : List Text}
    {text : Text} (h : text.all CodePoint.isBlank = false ∨ after ≠ []) :
    ∃ later, withoutBlankLast (placed offset (before ++ text :: after)) =
      placed offset before ++ ⟨offset + (preceding before).length, text⟩ :: later := by
  rw [placed_append, placed, withoutBlankLast_append_of_ne_nil (List.cons_ne_nil _ _)]
  cases after with
  | nil =>
    rcases h with hblank | hnil
    · exact ⟨[], by rw [placed, withoutBlankLast, if_neg (by simp [hblank])]⟩
    · exact absurd rfl hnil
  | cons next after => exact ⟨_, by rw [placed, withoutBlankLast]⟩

end Item

/-! ## Reading what is listed

Items are read on their own, and so an item is an expression just when its text is one. What the
list adds is where a fault stands. -/

namespace Expression

/-- **Blanks around an expression shift its faults and do nothing else.** A blank text is left out,
since there the fault is at its end. -/
theorem read_padded {before text after : Text} (hbefore : ∀ c ∈ before, c.isBlank)
    (hafter : ∀ c ∈ after, c.isBlank) (htext : ∃ c ∈ text, c.isBlank = false) :
    read (before ++ (text ++ after)) = (read text).moved before.length := by
  obtain ⟨lead, trail, hsplit, hlead, hblankLead, hblankTrail⟩ := text.exists_eq_append_trim
  have htrimmed := Text.isTrimmed_trim htext
  have hwhole :
      before ++ (text ++ after) = (before ++ lead) ++ (text.trim ++ (trail ++ after)) := by
    conv_lhs => rw [hsplit]
    simp only [List.append_assoc]
  have hall : ∀ c ∈ before ++ lead, c.isBlank := List.forall_mem_append.2 ⟨hbefore, hblankLead⟩
  have htrim : (before ++ (text ++ after)).trim = text.trim := by
    rw [hwhole, htrimmed.trim_append hall (List.forall_mem_append.2 ⟨hblankTrail, hafter⟩)]
  have hblanks : (before ++ (text ++ after)).leadingBlanks =
      before.length + text.leadingBlanks := by
    rw [hwhole, Text.leadingBlanks_append hall, htrimmed.leadingBlanks_append, List.length_append,
      hlead, Nat.add_zero]
  rw [read, read, Reading.moved_moved, htrim, hblanks]

/-- Of a blank text nothing can be read, and what ends it is to blame. -/
theorem read_of_isBlank {text : Text} (h : ∀ c ∈ text, c.isBlank) :
    read text = .error ⟨.noExpression, text.length⟩ := by
  rw [read, Text.trim_of_isBlank h, Text.leadingBlanks_of_isBlank h, readTrimmed]
  rfl

theorem exists_of_read_eq_ok {text : Text} {expression : Expression}
    (h : read text = .ok expression) : ∃ c ∈ text, c.isBlank = false := by
  by_contra hblank
  have hall : ∀ c ∈ text, c.isBlank := by simpa using hblank
  rw [read_of_isBlank hall] at h
  cases h

/-- The text in square brackets, as an array is written. -/
def bracketed (inside : Text) : Text := "[" ++ inside ++ "]"

/-- **A list is read item by item**, each text standing at its place behind the bracket. -/
theorem read_bracketed {texts : List Text} (h : ∀ text ∈ texts, text.IsUndivided) :
    read (bracketed (Text.joined "," texts)) = (do
      let elements ←
        Reading.moved 1 (Item.readEach read (Item.withoutBlankLast (Item.placed 0 texts)))
      return array elements) := by
  have htext : bracketed (Text.joined "," texts) =
      CodePoint.scalar '[' :: (Text.joined "," texts ++ [CodePoint.scalar ']']) := rfl
  have htrimmed : (bracketed (Text.joined "," texts)).IsTrimmed :=
    ⟨⟨_, _, htext, rfl⟩, ⟨_, _, rfl, rfl⟩⟩
  have hbalanced := Item.isBalanced_listed h
  have hinside : Text.inside? (bracketed (Text.joined "," texts)) =
      .ok (some (Text.joined "," texts)) :=
    Text.inside?_of_isGroup (Grammar.isGroup_of_isBalanced .square hbalanced [] 0)
  have hitems : arrayItems? (bracketed (Text.joined "," texts)) =
      .ok (some (Item.withoutBlankLast (Item.placed 0 texts))) := by
    rw [arrayItems?, hinside]
    show (Reading.moved 1 (Item.split (Text.joined "," texts)) >>= fun items => _) = _
    rw [Item.split_listed h]
    rfl
  have hblanks := htrimmed.leadingBlanks_append []
  rw [List.append_nil] at hblanks
  rw [read, htrimmed.trim_eq, hblanks, Reading.moved_zero, readTrimmed_array (by rfl) hitems,
    Item.readEach, Reading.moved_mapM]
  simp only [Reading.moved_moved]

end Expression

/-! ## Layouts

A layout is what one may choose when a list of given entries is written. It carries its own
well-formedness, so that no result about it has to ask for balanced texts. -/

/-- An entry of a list: a text that is no blank one and is not cut apart, between blanks. -/
structure Entry where
  before : Text
  text : Text
  after : Text
  blank_before : ∀ c ∈ before, c.isBlank
  blank_after : ∀ c ∈ after, c.isBlank
  undivided : text.IsUndivided
  filled : ∃ c ∈ text, c.isBlank = false

namespace Entry

variable (entry : Entry)

/-- The entry as it is written. -/
def written : Text := entry.before ++ (entry.text ++ entry.after)

theorem isUndivided_written : entry.written.IsUndivided :=
  Item.isPiece_iff.1 <| Item.isPiece_surround
    (fun c hc => Opening.isPlain_of_isBlank (entry.blank_before c hc))
    (fun c hc => Opening.isPlain_of_isBlank (entry.blank_after c hc))
    (Item.isPiece_iff.2 entry.undivided)

theorem text_not_all_isBlank : entry.text.all CodePoint.isBlank = false := by
  obtain ⟨c, hc, hblank⟩ := entry.filled
  exact List.all_eq_false.2 ⟨c, hc, by simp [hblank]⟩

theorem not_all_isBlank : entry.written.all CodePoint.isBlank = false := by
  rw [written, List.all_append, List.all_append, entry.text_not_all_isBlank, Bool.false_and,
    Bool.and_false]

/-- An entry is read as its text is, with its faults behind the blanks. -/
theorem read_eq_moved :
    Expression.read entry.written = (Expression.read entry.text).moved entry.before.length :=
  Expression.read_padded entry.blank_before entry.blank_after entry.filled

end Entry

/-- A list as it is laid out: its entries and, if a comma follows the last one, the blanks after
that comma. Where there are no entries, those are all the blanks. -/
structure Listing where
  entries : List Entry
  ending : Option Text
  blank_ending : ∀ text ∈ ending, ∀ c ∈ text, c.isBlank

namespace Listing

variable (listing : Listing)

/-- What stands between the commas. -/
def pieces : List Text := listing.entries.map Entry.written ++ listing.ending.toList

/-- The inside of the list. -/
def written : Text := Text.joined "," listing.pieces

theorem isUndivided_of_mem_pieces {text : Text} (h : text ∈ listing.pieces) : text.IsUndivided := by
  rcases List.mem_append.1 h with hentry | hending
  · obtain ⟨entry, _, rfl⟩ := List.mem_map.1 hentry
    exact entry.isUndivided_written
  · exact Item.isUndivided_of_isBlank (listing.blank_ending text (Option.mem_toList.1 hending))

theorem isBalanced_written : listing.written.IsBalanced :=
  Item.isBalanced_listed fun _ => listing.isUndivided_of_mem_pieces

/-- Only the entries are items, since the ending is blank and stands last. -/
theorem withoutBlankLast_pieces : Item.withoutBlankLast (Item.placed 0 listing.pieces) =
    Item.placed 0 (listing.entries.map Entry.written) := by
  cases hending : listing.ending with
  | some blanks =>
    rw [pieces, hending, Item.placed_append]
    exact Item.withoutBlankLast_append (listing.blank_ending blanks hending)
  | none =>
    rw [pieces, hending, Option.toList_none, List.append_nil]
    refine Item.withoutBlankLast_placed fun text htext => ?_
    obtain ⟨entry, _, rfl⟩ := List.mem_map.1 htext
    exact entry.not_all_isBlank

end Listing

namespace Expression

/-- The start of a list: a bracket, entries with a comma behind each, and blanks. Its length is the
offset of what follows. -/
def opened (entries : List Entry) (blanks : Text) : Text :=
  "[" ++ Item.preceding (entries.map Entry.written) ++ blanks

/-- A piece that cannot be read is the fault of the list, if it is an item and all before it can be
read. What stands behind it is not looked at any more, but it has been cut apart. -/
theorem read_bracketed_eq_error {before : List Entry} {text : Text} {after : List Text}
    {fault : ReadFault} (hbefore : ∀ earlier ∈ before, ∃ element, read earlier.text = .ok element)
    (htext : read text = .error fault) (hitem : text.all CodePoint.isBlank = false ∨ after ≠ [])
    (hundivided : ∀ other ∈ text :: after, other.IsUndivided) :
    read (bracketed (Text.joined "," (before.map Entry.written ++ text :: after))) =
      .error { fault with offset := (opened before []).length + fault.offset } := by
  have hall : ∀ other ∈ before.map Entry.written ++ text :: after, other.IsUndivided := by
    refine List.forall_mem_append.2 ⟨?_, hundivided⟩
    intro other hother
    obtain ⟨entry, _, rfl⟩ := List.mem_map.1 hother
    exact entry.isUndivided_written
  have hearlier : ∀ other ∈ before.map Entry.written, ∃ element, read other = .ok element := by
    intro other hother
    obtain ⟨entry, hentry, rfl⟩ := List.mem_map.1 hother
    obtain ⟨element, helement⟩ := hbefore entry hentry
    exact ⟨element, by rw [entry.read_eq_moved, helement, Reading.moved]⟩
  obtain ⟨later, hlater⟩ := Item.exists_withoutBlankLast_eq 0 (before.map Entry.written) hitem
  rw [read_bracketed hall, hlater, Item.readEach_eq_error hearlier htext, opened, List.append_nil,
    List.length_append, Nat.zero_add, Nat.add_assoc]
  rfl

theorem length_opened (entries : List Entry) (blanks : Text) :
    (opened entries blanks).length = (opened entries []).length + blanks.length := by
  rw [opened, opened, List.append_nil, List.length_append]

/-- What stands in brackets, with one of its pieces brought out, so that its offset can be read
off. -/
theorem bracketed_joined (before : List Entry) (blanks text : Text) (after : List Text) :
    ∃ rest, bracketed (Text.joined "," (before.map Entry.written ++ (blanks ++ text) :: after)) =
      opened before blanks ++ (text ++ rest) := by
  obtain ⟨more, hmore⟩ : ∃ more, Text.joined "," ((blanks ++ text) :: after) = blanks ++ text ++
    more := by
    cases after with
    | nil => exact ⟨[], by rw [Text.joined_singleton, List.append_nil]⟩
    | cons next after => exact ⟨_, Text.joined_cons _ _ (List.cons_ne_nil _ _)⟩
  refine ⟨more ++ "]", ?_⟩
  rw [bracketed, Item.joined_append (List.cons_ne_nil _ _), hmore, opened]
  simp only [List.append_assoc]

/-- However a list is laid out, it is the array of what its entries are. Neither blanks nor a comma
at the end have a say. -/
theorem read_bracketed_written {listing : Listing} {elements : List Expression}
    (h : List.Forall₂ (fun entry element => read entry.text = .ok element) listing.entries
      elements) :
    read (bracketed listing.written) = .ok (array elements) := by
  have hentries : List.Forall₂ (fun text element => read text = .ok element)
      (listing.entries.map Entry.written) elements := by
    refine List.forall₂_map_left_iff.2 (h.imp fun entry element helement => ?_)
    rw [entry.read_eq_moved, helement, Reading.moved]
  rw [Listing.written, read_bracketed fun _ => listing.isUndivided_of_mem_pieces,
    listing.withoutBlankLast_pieces, Item.readEach_placed_eq_ok_iff.2 hentries]
  rfl

/-- An entry that cannot be read is the fault of the list, at its place, if all before it can be
read. -/
theorem read_bracketed_written_eq_error {listing : Listing} {before after : List Entry}
    {entry : Entry} {fault : ReadFault} (hentries : listing.entries = before ++ entry :: after)
    (hbefore : ∀ earlier ∈ before, ∃ element, read earlier.text = .ok element)
    (hfault : read entry.text = .error fault) :
    (∃ rest, bracketed listing.written = opened before entry.before ++ (entry.text ++ rest)) ∧
      read (bracketed listing.written) =
        .error { fault with offset := (opened before entry.before).length + fault.offset } := by
  have hpieces : listing.pieces = before.map Entry.written ++
      entry.written :: (after.map Entry.written ++ listing.ending.toList) := by
    rw [Listing.pieces, hentries, List.map_append, List.map_cons, List.append_assoc,
      List.cons_append]
  constructor
  · obtain ⟨rest, hrest⟩ := bracketed_joined before entry.before (entry.text ++ entry.after)
      (after.map Entry.written ++ listing.ending.toList)
    exact ⟨entry.after ++ rest, by rw [Listing.written, hpieces, Entry.written, hrest,
      List.append_assoc]⟩
  · have hwritten : read entry.written =
        .error { fault with offset := entry.before.length + fault.offset } := by
      rw [entry.read_eq_moved, hfault, Reading.moved]
    have hundivided : ∀ piece ∈ entry.written :: (after.map Entry.written ++ listing.ending.toList),
        piece.IsUndivided := fun piece hpiece =>
      listing.isUndivided_of_mem_pieces (hpieces ▸ List.mem_append_right _ hpiece)
    rw [Listing.written, hpieces,
      read_bracketed_eq_error hbefore hwritten (.inl entry.not_all_isBlank) hundivided,
      length_opened before entry.before, Nat.add_assoc]

/-- The comma behind a blank item is the fault of the list, if all before it can be read: where the
comma stands, an expression was expected. -/
theorem read_blank_eq_error {before : List Entry} {blanks : Text} {after : List Text}
    (hbefore : ∀ earlier ∈ before, ∃ element, read earlier.text = .ok element)
    (hblanks : ∀ c ∈ blanks, c.isBlank) (hafter : after ≠ [])
    (hundivided : ∀ text ∈ after, text.IsUndivided) :
    read (opened before blanks ++ ("," ++ (Text.joined "," after ++ "]"))) =
      .error ⟨.noExpression, (opened before blanks).length⟩ := by
  have htext : opened before blanks ++ ("," ++ (Text.joined "," after ++ "]")) =
      bracketed (Text.joined "," (before.map Entry.written ++ blanks :: after)) := by
    rw [bracketed, Item.joined_append (List.cons_ne_nil _ _), Text.joined_cons _ _ hafter, opened]
    simp only [List.append_assoc]
  rw [htext, read_bracketed_eq_error hbefore (read_of_isBlank hblanks) (.inr hafter)
    (List.forall_mem_cons.2 ⟨Item.isUndivided_of_isBlank hblanks, hundivided⟩), ← length_opened]

/-- **Reading a list is reading its entries.** However a list is laid out, it is the array of what
its entries are, each read on its own (1). If an entry cannot be read and all before it can, its
fault is the fault of the list, at the place of the entry (2). If there is nothing but blanks before
a comma, and all before them can be read, then that comma stands where an expression has to (3). -/
theorem read_listing :
    (∀ (listing : Listing) (elements : List Expression),
      List.Forall₂ (fun entry element => read entry.text = .ok element) listing.entries elements →
      read (bracketed listing.written) = .ok (array elements)) ∧
    (∀ (listing : Listing) (before after : List Entry) (entry : Entry) (fault : ReadFault),
      listing.entries = before ++ entry :: after →
      (∀ earlier ∈ before, ∃ element, read earlier.text = .ok element) →
      read entry.text = .error fault →
      (∃ rest, bracketed listing.written = opened before entry.before ++ (entry.text ++ rest)) ∧
        read (bracketed listing.written) =
          .error { fault with offset := (opened before entry.before).length + fault.offset }) ∧
    (∀ (before : List Entry) (blanks : Text) (after : List Text),
      (∀ earlier ∈ before, ∃ element, read earlier.text = .ok element) →
      (∀ c ∈ blanks, c.isBlank) → after ≠ [] → (∀ text ∈ after, text.IsUndivided) →
      read (opened before blanks ++ ("," ++ (Text.joined "," after ++ "]"))) =
        .error ⟨.noExpression, (opened before blanks).length⟩) :=
  ⟨fun _ _ => read_bracketed_written, fun _ _ _ _ _ => read_bracketed_written_eq_error,
    fun _ _ _ => read_blank_eq_error⟩

/-- Two entries, a comma behind the second one; then a wrong escape in its place; then blanks. -/
theorem read_listing_pair :
    read "[ \"a, b\"\n,f(x, [y]) , ]" = .ok (array [string "a, b" false, raw "f(x, [y])"]) ∧
      (read "\"\\q\"" = .error ⟨.invalidEscape 'q', 1⟩ ∧
        read "[ \"a, b\"\n, \"\\q\"]" = .error ⟨.invalidEscape 'q', 12⟩) ∧
      read "[ \"a, b\"\n,  ,f(x, [y])]" = .error ⟨.noExpression, 12⟩ := by
  let title : Entry := ⟨" ", "\"a, b\"", "\n", by decide, by decide, by decide +kernel, by decide⟩
  let call : Entry := ⟨"", "f(x, [y])", " ", by decide, by decide, by decide +kernel, by decide⟩
  let wrong : Entry := ⟨" ", "\"\\q\"", "", by decide, by decide, by decide +kernel, by decide⟩
  have htitle : read title.text = .ok (string "a, b" false) := by decide +kernel
  have hcall : read call.text = .ok (raw "f(x, [y])") := by decide +kernel
  have hwrong : read wrong.text = .error ⟨.invalidEscape 'q', 1⟩ := by decide +kernel
  have hbefore : ∀ earlier ∈ [title], ∃ element, read earlier.text = .ok element :=
    List.forall_mem_singleton.2 ⟨_, htitle⟩
  refine ⟨?_, ⟨hwrong, ?_⟩, ?_⟩
  · exact read_listing.1 ⟨[title, call], some " ", by decide⟩ _ (.cons htitle (.cons hcall .nil))
  · exact (read_listing.2.1 ⟨[title, wrong], none, by decide⟩ [title] [] wrong _ rfl
      hbefore hwrong).2
  · exact read_listing.2.2 [title] "  " [call.text] hbefore (by decide) (by decide)
      (List.forall_mem_singleton.2 call.undivided)

end Expression

end MemberSynthesis
