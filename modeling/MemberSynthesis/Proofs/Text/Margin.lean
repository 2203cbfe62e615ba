import MemberSynthesis.Text.Margin
import MemberSynthesis.Proofs.Text.Basic
import MemberSynthesis.Proofs.Text.Lines

/-!
# What the margin of a text is, and what is left without it

The statements of an initializer are given as one text, indented as they stood in the source. Their
margin is taken off before they are written into a member. It is computed from line to line, by a
common start of indentations that is shortened whenever a line asks for it; here is what that comes
to.

**The margin is the longest indentation that all written lines of the text share**
(`isMargin_margin`), a line being written if it holds more than spaces and tabs. This is a property
and not a computation, and it determines the margin of every text that has a written line
(`IsMargin.length_eq`). Lines that are not written are emptied, so what they are made of has no say.

Two things are then said of any margin, and so of the one that is computed. Taking it off and
emptying the other lines removes nothing but spaces, tabs and line feeds
(`IsMargin.mem_unmargined_iff`), the line feeds being those at the two ends. And what remains is cut
into lines, for which there are two notions of a line. **They agree on a text just when it has no
line end but line feeds** (`IsMargin.stacked_lines_eq_iff`): any other line end is lost or becomes a
line feed, though it stands inside a string of the author's code.

Which blanks inside of a line are kept is not said. All of them are, since what is taken off is a
start of the line, but nothing here depends on it.
-/

set_option autoImplicit false

namespace MemberSynthesis

theorem CodePoint.isIndent_iff {c : CodePoint} : c.isIndent ↔ c = ' ' ∨ c = '\t' := by
  simp [isIndent]

namespace Text

/-! ## The longest common start

`commonStart` is a start of both texts, and every start of both is a start of it: three inductions
along its recursion, and the only place where it is opened. -/

theorem commonStart_isPrefix_left : ∀ s t : Text, commonStart s t <+: s
  | [], _ => List.nil_prefix
  | _ :: _, [] => List.nil_prefix
  | a :: s, b :: t => by
    rw [commonStart]
    split
    · exact List.cons_prefix_cons.2 ⟨rfl, commonStart_isPrefix_left s t⟩
    · exact List.nil_prefix

theorem commonStart_isPrefix_right : ∀ s t : Text, commonStart s t <+: t
  | [], _ => List.nil_prefix
  | _ :: _, [] => List.nil_prefix
  | a :: s, b :: t => by
    rw [commonStart]
    split
    · rename_i hab
      exact List.cons_prefix_cons.2 ⟨hab, commonStart_isPrefix_right s t⟩
    · exact List.nil_prefix

theorem isPrefix_commonStart : ∀ {start s t : Text}, start <+: s → start <+: t →
    start <+: commonStart s t
  | [], _, _, _, _ => List.nil_prefix
  | c :: start, s, t, hs, ht => by
    obtain ⟨s, rfl⟩ := hs
    obtain ⟨t, rfl⟩ := ht
    rw [List.cons_append, List.cons_append, commonStart, if_pos rfl, List.cons_prefix_cons]
    exact ⟨rfl, isPrefix_commonStart (List.prefix_append _ _) (List.prefix_append _ _)⟩

/-! ## Shared indentation

A line has an indentation, and lines share the common start of theirs. The recursion over the lines
makes the last one a special case, since no line has no indentation to start with;
`sharedIndentation_cons` says so for all others. -/

theorem indentation_isPrefix (line : Text) : line.indentation <+: line :=
  List.takeWhile_prefix _

theorem isIndent_of_mem_indentation {line : Text} {c : CodePoint} (h : c ∈ line.indentation) :
    c.isIndent :=
  List.all_eq_true.1 List.all_takeWhile c h

theorem isPrefix_indentation {start line : Text} (hindent : ∀ c ∈ start, c.isIndent)
    (h : start <+: line) : start <+: line.indentation := by
  obtain ⟨rest, rfl⟩ := h
  rw [indentation, List.takeWhile_append_of_pos hindent]
  exact List.prefix_append _ _

theorem sharedIndentation_cons {line : Text} {more : List Text} (h : more ≠ []) :
    sharedIndentation (line :: more) = commonStart line.indentation (sharedIndentation more) := by
  cases more with
  | nil => exact absurd rfl h
  | cons next more => rfl

/-- The shared indentation is an indentation of every line. With `isPrefix_sharedIndentation` it is
the longest one. -/
theorem sharedIndentation_isPrefix {lines : List Text} :
    ∀ line ∈ lines, sharedIndentation lines <+: line.indentation := by
  induction lines with
  | nil => exact fun line h => absurd h List.not_mem_nil
  | cons line more ih =>
    by_cases hmore : more = []
    · rw [hmore]
      intro other hother
      rw [List.mem_singleton.1 hother]
      exact List.prefix_rfl
    · intro other hother
      rw [sharedIndentation_cons hmore]
      rcases List.mem_cons.1 hother with rfl | hother
      · exact commonStart_isPrefix_left _ _
      · exact (commonStart_isPrefix_right _ _).trans (ih other hother)

theorem isIndent_of_mem_sharedIndentation {lines : List Text} {c : CodePoint}
    (h : c ∈ sharedIndentation lines) : c.isIndent := by
  cases lines with
  | nil => exact absurd h List.not_mem_nil
  | cons line more =>
    have hcommon := sharedIndentation_isPrefix line (List.mem_cons_self (l := more))
    exact isIndent_of_mem_indentation (hcommon.subset h)

/-- What all lines are indented by, the shared indentation starts with. So no longer one is
shared. -/
theorem isPrefix_sharedIndentation {start : Text} {lines : List Text} (hne : lines ≠ [])
    (h : ∀ line ∈ lines, start <+: line.indentation) : start <+: sharedIndentation lines := by
  induction lines with
  | nil => exact absurd rfl hne
  | cons line more ih =>
    by_cases hmore : more = []
    · rw [hmore]
      exact h line List.mem_cons_self
    · rw [sharedIndentation_cons hmore]
      exact isPrefix_commonStart (h line List.mem_cons_self)
        (ih hmore fun other hother => h other (List.mem_cons_of_mem line hother))

/-! ## Written lines and the margin

The lines that count are picked by emptying the others and dropping what is empty, while the
property speaks of lines that hold more than spaces and tabs. `mem_filter_writtenLines_iff` is the
bridge between the two. -/

/-- The line holds more than spaces and tabs. Other blanks count as something written: they are not
taken off. -/
def IsWritten (line : Text) : Prop := ∃ c ∈ line, c.isIndent = false

instance (line : Text) : Decidable line.IsWritten := List.decidableBEx _ _

theorem all_isIndent_iff {line : Text} : line.all CodePoint.isIndent ↔ ¬ line.IsWritten := by
  simp [IsWritten]

/-- The text is the longest indentation that all the written lines share. If there are none, any
indentation will do: none of it is taken off. -/
structure IsMargin (text margin : Text) : Prop where
  indent : ∀ c ∈ margin, c = ' ' ∨ c = '\t'
  shared : ∀ line ∈ feedLines text, line.IsWritten → margin <+: line
  longest : (∃ line ∈ feedLines text, line.IsWritten) → ∀ other : Text,
    (∀ c ∈ other, c = ' ' ∨ c = '\t') →
    (∀ line ∈ feedLines text, line.IsWritten → other <+: line) → other <+: margin

/-- The lines that have a say in the margin are the written ones, and each of them stands in the
text as it is. -/
theorem mem_filter_writtenLines_iff {text line : Text} :
    line ∈ (writtenLines text).filter (· ≠ []) ↔ line ∈ feedLines text ∧ line.IsWritten := by
  simp only [writtenLines, List.mem_filter, List.mem_map, decide_eq_true_eq, all_isIndent_iff]
  constructor
  · rintro ⟨⟨other, hother, rfl⟩, hne⟩
    split at hne
    · exact absurd rfl hne
    · rename_i hwritten
      rw [if_neg hwritten]
      exact ⟨hother, Decidable.not_not.1 hwritten⟩
  · rintro ⟨hline, hwritten⟩
    refine ⟨⟨line, hline, if_neg (Decidable.not_not.2 hwritten)⟩, ?_⟩
    rintro rfl
    obtain ⟨c, hc, _⟩ := hwritten
    exact List.not_mem_nil hc

/-- **The margin is the longest indentation that all written lines share.** The three parts are
those of `sharedIndentation`, over the written lines. -/
theorem isMargin_margin (text : Text) : text.IsMargin text.margin where
  indent c hc := CodePoint.isIndent_iff.1 (isIndent_of_mem_sharedIndentation hc)
  shared line hline hwritten :=
    (sharedIndentation_isPrefix line (mem_filter_writtenLines_iff.2 ⟨hline, hwritten⟩)).trans
      (indentation_isPrefix line)
  longest := by
    rintro ⟨line, hline⟩ other hindent hshared
    refine isPrefix_sharedIndentation (List.ne_nil_of_mem (mem_filter_writtenLines_iff.2 hline)) ?_
    intro line hline
    obtain ⟨hline, hwritten⟩ := mem_filter_writtenLines_iff.1 hline
    exact isPrefix_indentation (fun c hc => CodePoint.isIndent_iff.2 (hindent c hc))
      (hshared line hline hwritten)

/-- All margins of a text with a written line are one, since each is a start of the other. Only the
length is used, as it is that many code points that are taken off. -/
theorem IsMargin.length_eq {text margin other : Text} (h : text.IsMargin margin)
    (hother : text.IsMargin other) (hwritten : ∃ line ∈ feedLines text, line.IsWritten) :
    margin.length = other.length :=
  Nat.le_antisymm (hother.longest hwritten margin h.indent h.shared).length_le
    (h.longest hwritten other hother.indent hother.shared).length_le

/-! ## The text without its margin

Said in terms of the property: `unmargined` takes any margin, and with a margin it is what the code
computes. So the theorems about it hold however the margin was found. -/

/-- The text with a margin taken off its written lines, its other lines emptied, and without the
line feeds at its two ends. Nothing else is changed. -/
def unmargined (text margin : Text) : Text :=
  stripFeeds (stacked ((feedLines text).map fun line =>
    if line.IsWritten then line.drop margin.length else []))

/-- **Taking the margin off leaves what a margin says.** Any margin will do: on the written lines it
has the length of the computed one, and the others are emptied. -/
theorem IsMargin.unmargined_eq {text margin : Text} (h : text.IsMargin margin) :
    text.unmargined margin = text.withoutMargin.stripFeeds := by
  have hlines : ((feedLines text).map fun line =>
      if line.IsWritten then line.drop margin.length else []) =
        (writtenLines text).map fun line => line.drop text.margin.length := by
    rw [writtenLines, List.map_map]
    apply List.map_congr_left
    intro line hline
    simp only [Function.comp_apply, all_isIndent_iff]
    by_cases hwritten : line.IsWritten
    · rw [if_pos hwritten, if_neg (Decidable.not_not.2 hwritten),
        h.length_eq (isMargin_margin text) ⟨line, hline, hwritten⟩]
    · rw [if_neg hwritten, if_pos hwritten, List.drop_nil]
  rw [unmargined, withoutMargin, hlines]

/-- **Nothing but spaces, tabs and line feeds is removed.** Any other code point stands in what is
left just when it stood in the text, in particular every quote and every bracket. -/
theorem IsMargin.mem_unmargined_iff {text margin : Text} (h : text.IsMargin margin) {c : CodePoint}
    (hindent : c.isIndent = false) (hfeed : c ≠ '\n') : c ∈ text.unmargined margin ↔ c ∈ text := by
  have hline : ∀ line ∈ feedLines text,
      c ∈ (if line.IsWritten then line.drop margin.length else []) ↔ c ∈ line := by
    intro line hline
    by_cases hwritten : line.IsWritten
    · rw [if_pos hwritten]
      obtain ⟨rest, rfl⟩ := h.shared line hline hwritten
      -- The margin holds nothing but indents, and so taking it off leaves all else.
      have hmargin : c ∉ margin := by
        intro hc
        rw [CodePoint.isIndent_iff.2 (h.indent c hc)] at hindent
        cases hindent
      rw [List.drop_left, List.mem_append, or_iff_right hmargin]
    · rw [if_neg hwritten]
      exact ⟨fun hc => absurd hc List.not_mem_nil, fun hc => absurd ⟨c, hc, hindent⟩ hwritten⟩
  have hseparator : c ∉ ([CodePoint.scalar '\n'] : Text) := by simpa using hfeed
  have hwhole : c ∈ text ↔ ∃ line ∈ feedLines text, c ∈ line := by
    rw [← mem_joined_iff hseparator, ← stacked, stacked_feedLines]
  have hstrip : c ∈ text.unmargined margin ↔ c ∈ stacked ((feedLines text).map fun line =>
      if line.IsWritten then line.drop margin.length else []) :=
    ⟨mem_of_mem_strip, fun hc => mem_strip hc (by simpa using hfeed)⟩
  rw [hstrip, stacked, mem_joined_iff hseparator, hwhole]
  constructor
  · rintro ⟨_, hfound, hc⟩
    obtain ⟨line, hmem, rfl⟩ := List.mem_map.1 hfound
    exact ⟨line, hmem, (hline line hmem).1 hc⟩
  · rintro ⟨line, hmem, hc⟩
    exact ⟨_, List.mem_map_of_mem hmem, (hline line hmem).2 hc⟩

theorem isIndent_eq_false_of_isLineEnd {c : CodePoint} (h : c.isLineEnd) : c.isIndent = false := by
  rw [Bool.eq_false_iff, ne_eq, CodePoint.isIndent_iff]
  rintro (rfl | rfl)
  · exact absurd h (by decide)
  · exact absurd h (by decide)

/-- **The lines of a text without its margin are that text just when it has no line end but line
feeds.** The condition is on the text as it was given, because no line end is taken off but line
feeds. -/
theorem IsMargin.stacked_lines_eq_iff {text margin : Text} (h : text.IsMargin margin) :
    stacked (lines (text.unmargined margin)) = text.unmargined margin ↔
      ∀ c ∈ text, c.isLineEnd → c = '\n' := by
  have hlast : (text.unmargined margin).getLast? ≠ some (CodePoint.scalar '\n') := by
    intro hlast
    have hfeed := eq_false_of_getLast?_dropEndWhile hlast
    simp at hfeed
  rw [Text.stacked_lines_eq_iff hlast]
  constructor
  · intro hends c hc hend
    refine Decidable.byContradiction fun hfeed => hfeed (hends c ?_ hend)
    exact (h.mem_unmargined_iff (isIndent_eq_false_of_isLineEnd hend) hfeed).2 hc
  · intro hends c hc hend
    refine Decidable.byContradiction fun hfeed => hfeed (hends c ?_ hend)
    exact (h.mem_unmargined_iff (isIndent_eq_false_of_isLineEnd hend) hfeed).1 hc

/-- A text of one line that starts with neither a space nor a tab has nothing to be taken off.
Statements in one line are therefore written as they are. -/
theorem stripFeeds_withoutMargin_eq_self {text : Text} (hfeed : CodePoint.scalar '\n' ∉ text)
    (hstart : ∀ c ∈ text.head?, c.isIndent = false) : text.withoutMargin.stripFeeds = text := by
  cases text with
  | nil => rfl
  | cons c rest =>
    have hc : c.isIndent = false := hstart c rfl
    have hwritten : IsWritten (c :: rest) := ⟨c, List.mem_cons_self, hc⟩
    have hlines : writtenLines (c :: rest) = [c :: rest] := by
      rw [writtenLines, feedLines_of_not_mem hfeed, List.map_singleton, if_neg]
      rw [all_isIndent_iff]
      exact not_not_intro hwritten
    have hmargin : margin (c :: rest) = [] := by
      simp [margin, hlines, sharedIndentation, indentation, hc]
    have hwithout : withoutMargin (c :: rest) = c :: rest := by
      rw [withoutMargin, hlines, hmargin]
      exact joined_singleton _ _
    rw [hwithout, stripFeeds]
    apply strip_eq_self
    rintro d hd
    exact decide_eq_false fun heq => hfeed (heq ▸ hd)

end Text

end MemberSynthesis
