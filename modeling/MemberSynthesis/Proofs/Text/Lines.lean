import MemberSynthesis.Proofs.Text.Basic
import MemberSynthesis.Text.Lines

/-!
# Stacking lines

There are two notions of a line. *Feed lines* are what stands between line feeds, so that a text
with a line feed at its end has an empty line there; *lines* are ended by any of the line ends there
are, and none follows the last end. Members are written by stacking, with line feeds, and the two
notions matter when what was written is cut again.

* Cutting a text into feed lines loses nothing (`stacked_feedLines`). The other way round, **lines
  put one below the other are cut apart again as they were, as long as none of them holds a line
  feed** (`feedLines_stacked`).
* Cutting a text into lines is another matter: there **nothing is lost just when line feeds are the
  only line ends** (`stacked_lines_eq_iff`). Any other line end becomes a line feed when the lines
  are stacked again, and a carriage return before a line feed is lost altogether.

What a member is laid out as depends on the second notion and what it is read back as on the first,
so both equivalences are needed with their conditions: neither is a fact about all texts.
-/

set_option autoImplicit false

namespace MemberSynthesis

namespace Text

theorem feedLines_of_not_mem {line : Text} (h : CodePoint.scalar '\n' ∉ line) :
    feedLines line = [line] := by
  induction line with
  | nil => rfl
  | cons c rest ih =>
    rw [List.mem_cons, not_or] at h
    rw [feedLines, if_neg (Ne.symm h.1), ih h.2]

theorem feedLines_append {line rest : Text} (h : CodePoint.scalar '\n' ∉ line) :
    feedLines (line ++ CodePoint.scalar '\n' :: rest) = line :: feedLines rest := by
  induction line with
  | nil => simp [feedLines]
  | cons c more ih =>
    rw [List.mem_cons, not_or] at h
    rw [List.cons_append, feedLines, if_neg (Ne.symm h.1), ih h.2]

/-- A line feed between two texts ends a line, whatever the texts are. Unlike `feedLines_append`
this asks for nothing, because the line feeds in the first text cut it as well. -/
theorem feedLines_append_feed (text rest : Text) :
    feedLines (text ++ CodePoint.scalar '\n' :: rest) = feedLines text ++ feedLines rest := by
  induction text with
  | nil => simp [feedLines]
  | cons c more ih =>
    rw [List.cons_append, feedLines, feedLines, ih]
    split
    · rfl
    · obtain ⟨line, others, hlines⟩ := List.exists_cons_of_ne_nil (feedLines_ne_nil more)
      rw [hlines]
      rfl

theorem stacked_singleton (text : Text) : stacked [text] = text := joined_singleton _ _

/-- **Lines without line feeds are the feed lines of what they make one below the other.** There
must be one line at least: the feed lines of the empty text are one empty line. -/
theorem feedLines_stacked {lines : List Text} (hne : lines ≠ [])
    (h : ∀ line ∈ lines, CodePoint.scalar '\n' ∉ line) : feedLines (stacked lines) = lines := by
  induction lines with
  | nil => exact absurd rfl hne
  | cons line more ih =>
    have hline := h line List.mem_cons_self
    cases more with
    | nil => rw [stacked_singleton, feedLines_of_not_mem hline]
    | cons next more =>
      have hmore := ih (List.cons_ne_nil _ _) fun other hother =>
        h other (List.mem_cons_of_mem _ hother)
      rw [stacked_cons (List.cons_ne_nil _ _), feedLines_append hline, hmore]

/-- Texts one below the other, and others below them. Neither list may be empty, since only between
two texts there is a line feed. -/
theorem stacked_append {texts others : List Text} (htexts : texts ≠ []) (hothers : others ≠ []) :
    stacked (texts ++ others) = stacked texts ++ CodePoint.scalar '\n' :: stacked others :=
  joined_append _ htexts hothers

/-! ## Lines that are moved right

Members are written as blocks, and the lines of an inner block are moved right. An empty line stays
empty. Taking off as many code points as the indent has does no harm there, so every line comes back
when it is read. -/

theorem drop_indented (indent line : Text) : (indented indent line).drop indent.length = line := by
  rw [indented]
  split
  · rename_i hline
    rw [hline, List.drop_nil]
  · exact List.drop_left

theorem not_mem_indented {indent line : Text} {c : CodePoint} (hindent : c ∉ indent)
    (hline : c ∉ line) :
    c ∉ indented indent line := by
  rw [indented]
  split
  · exact List.not_mem_nil
  · rw [List.mem_append, not_or]
    exact ⟨hindent, hline⟩

/-! ## Lines and line ends -/

theorem not_mem_of_mem_lines {c : CodePoint} (hc : c.isLineEnd) {text : Text} :
    ∀ {line : Text}, line ∈ lines text → c ∉ line := by
  induction text with
  | nil => exact fun h => absurd h List.not_mem_nil
  | cons d rest ih =>
    intro line h
    rw [lines] at h
    split at h
    · exact ih h
    · split at h
      · rcases List.mem_cons.1 h with rfl | h
        · exact List.not_mem_nil
        · exact ih h
      · -- The first line is longer by a code point that ends no line.
        rename_i hd
        have hne : c ≠ d := fun heq => hd (heq ▸ hc)
        split at h
        · rw [List.mem_singleton.1 h, List.mem_singleton]
          exact hne
        · rename_i first more hrest
          rw [hrest] at ih
          rcases List.mem_cons.1 h with rfl | h
          · rw [List.mem_cons, not_or]
            exact ⟨hne, ih List.mem_cons_self⟩
          · exact ih (List.mem_cons_of_mem first h)

/-! ## The two notions of a line

Both are recursions over the text, and they part where a line end that is no line feed comes up, or
where the text ends behind a line feed. Without either they are the same; with the first, something
is lost. -/

/-- Where only line feeds end lines, the lines are the feed lines, except that no line follows a
line feed at the end: hence the condition on the last code point. -/
theorem lines_eq_feedLines {text : Text} (hends : ∀ c ∈ text, c.isLineEnd → c = '\n')
    (hne : text ≠ []) (hlast : text.getLast? ≠ some (CodePoint.scalar '\n')) :
    lines text = feedLines text := by
  induction text with
  | nil => exact absurd rfl hne
  | cons c rest ih =>
    have hreturn : c ≠ '\r' := by
      rintro rfl
      have h := hends _ List.mem_cons_self (by decide)
      cases h
    rw [lines, feedLines, if_neg fun h => hreturn h.1]
    by_cases hrest : rest = []
    · have hfeed : c ≠ '\n' := by
        rintro rfl
        rw [hrest] at hlast
        exact hlast rfl
      have hend : ¬ c.isLineEnd := fun h => hfeed (hends c List.mem_cons_self h)
      rw [if_neg hend, if_neg hfeed, hrest, lines, feedLines]
    · have hmore := ih (fun d hd => hends d (List.mem_cons_of_mem c hd)) hrest
        (by rwa [List.getLast?_cons_of_ne_nil hrest] at hlast)
      rw [hmore]
      by_cases hfeed : c = '\n'
      · rw [if_pos hfeed, if_pos (hfeed ▸ rfl)]
      · rw [if_neg hfeed, if_neg fun h => hfeed (hends c List.mem_cons_self h)]

/-- **Cutting a text into lines loses nothing just when it has no line end but line feeds.** Any
other is lost or turned into a line feed. What stands at the end is kept out by the hypothesis,
because a line feed there is lost in any case. -/
theorem stacked_lines_eq_iff {text : Text} (hlast : text.getLast? ≠ some (CodePoint.scalar '\n')) :
    stacked (lines text) = text ↔ ∀ c ∈ text, c.isLineEnd → c = '\n' := by
  constructor
  · intro h c hc hend
    refine Decidable.byContradiction fun hfeed => ?_
    rw [← h, stacked, mem_joined_iff (by simpa using hfeed)] at hc
    obtain ⟨line, hline, hc⟩ := hc
    exact not_mem_of_mem_lines hend hline hc
  · intro h
    by_cases hne : text = []
    · rw [hne]
      rfl
    · rw [lines_eq_feedLines h hne hlast, stacked_feedLines]

/-- A text is its only line just when it holds no line end. So a text of the author's own can be
written into a line of code if it holds none. -/
theorem lines_eq_singleton_iff {text : Text} (hne : text ≠ []) :
    lines text = [text] ↔ ∀ c ∈ text, c.isLineEnd = false := by
  constructor
  · intro h c hc
    rw [Bool.eq_false_iff]
    intro hend
    exact not_mem_of_mem_lines hend (h ▸ List.mem_singleton_self text) hc
  · intro h
    have hfeed : CodePoint.scalar '\n' ∉ text := fun hmem => absurd (h _ hmem) (by decide)
    rw [lines_eq_feedLines (fun c hc hend => ?_) hne, feedLines_of_not_mem hfeed]
    · exact fun hlast => hfeed (List.mem_of_getLast? hlast)
    · rw [h c hc] at hend
      cases hend

end Text

end MemberSynthesis
