import Mathlib.Algebra.GroupWithZero.Nat
import Mathlib.Data.List.Basic
import Mathlib.Logic.ExistsUnique
import MemberSynthesis.Proofs.Text.Lines
import MemberSynthesis.Text.Position

/-!
# Positions and offsets

A fault is reported with the line and the column of its offset, both counted from one. They are
computed from two searches in the text before the offset: the line feeds are counted, and the last
of them is looked for. Neither search looks at lines, and neither knows the text behind the offset.
To see that both together name a place on a line, the offset is written as what the lines above it
take and how far it stands into its own line (`exists_place`); **there, the position is read off**
(`ofOffset_place`).

So **offsets and positions correspond one to one and in order**
(`existsUnique_offset_and_precedes`). In detail, for every text:

* an offset from zero up to the length of the text has a position on one of the lines, and the
  offset can be computed back from it;
* a position on one of the lines is that of one offset, and of no other;
* of two offsets the larger one has the later position, on a lower line or further right on the
  same.

A line feed is the last place on the line that it ends, and the end of the text a place on the last
line, also where that line is empty. Offsets are integers, and a negative one counts from the end of
the text; about those, and about offsets behind the end, nothing is said.
-/

set_option autoImplicit false

namespace MemberSynthesis

namespace Position

variable {text line : Text} {above below : List Text} {k : Nat}

/-- The position names a place on one of the lines, its end included. Columns are counted from one,
so a line has one column more than code points. -/
structure IsIn (p : Position) (text : Text) : Prop where
  line_pos : 1 ≤ p.line
  line_le : p.line ≤ text.feedLines.length
  column_pos : 1 ≤ p.column
  column_le : ∀ line ∈ text.feedLines[p.line - 1]?, p.column ≤ line.length + 1

/-- The offset of a position: the lengths of the lines above, a line feed for each of them, and the
column. Computed from the lines alone, without any search in the text. -/
def offsetIn (p : Position) (text : Text) : Int :=
  ((text.feedLines.take (p.line - 1)).map List.length).sum + ((p.line : Int) - 1) + (p.column - 1)

/-- The position comes first in the text: on a line further up, or further left on the same line. -/
def Precedes (p q : Position) : Prop := p.line < q.line ∨ p.line = q.line ∧ p.column < q.column

/-! ## Places

An offset taken apart: the lines above, the line it stands on, the lines below, and how many code
points of its line stand before it. That every offset up to the end of the text can be taken apart
so is an induction over the lines, in which each line takes its code points and one more. -/

/-- What lines take in a text, each with the line feed that ends it. -/
def linesLength (lines : List Text) : Nat := (lines.map List.length).sum + lines.length

theorem linesLength_cons (line : Text) (more : List Text) :
    linesLength (line :: more) = line.length + 1 + linesLength more := by
  simp only [linesLength, List.map_cons, List.sum_cons, List.length_cons]
  omega

theorem linesLength_append (lines more : List Text) :
    linesLength (lines ++ more) = linesLength lines + linesLength more := by
  simp only [linesLength, List.map_append, List.sum_append, List.length_append]
  omega

/-- The offset stands `k` code points into `line`, below the lines `above`. If `k` is the whole
length, then the offset is that of the line feed behind the line, or the end of the text. -/
structure IsPlace (text : Text) (offset : Nat) (above : List Text) (line : Text) (below : List Text)
    (k : Nat) : Prop where
  lines : text.feedLines = above ++ line :: below
  le : k ≤ line.length
  offset_eq : offset = linesLength above + k

theorem exists_place_stacked : ∀ {lines : List Text} {offset : Nat}, lines ≠ [] →
    offset ≤ (Text.stacked lines).length →
    ∃ above line below k, lines = above ++ line :: below ∧ k ≤ line.length ∧
      offset = linesLength above + k
  | [], _, hne, _ => absurd rfl hne
  | [line], offset, _, hoffset => by
    rw [Text.stacked_singleton] at hoffset
    exact ⟨[], line, [], offset, rfl, hoffset, (Nat.zero_add offset).symm⟩
  | line :: next :: more, offset, _, hoffset => by
    rw [Text.stacked_cons (List.cons_ne_nil _ _), List.length_append, List.length_cons] at hoffset
    by_cases hline : offset ≤ line.length
    · exact ⟨[], line, next :: more, offset, rfl, hline, (Nat.zero_add offset).symm⟩
    · obtain ⟨above, own, below, k, hlines, hk, hrest⟩ :=
        @exists_place_stacked (next :: more) (offset - (line.length + 1)) (List.cons_ne_nil _ _)
          (by omega)
      refine ⟨line :: above, own, below, k, congrArg (line :: ·) hlines, hk, ?_⟩
      rw [linesLength_cons]
      omega

/-- **Every offset stands on a line.** It may stand on two of them only in appearance: the offset of
a line feed is the end of the line above, and not the start of the one below. -/
theorem exists_place {offset : Nat} (h : offset ≤ text.length) :
    ∃ above line below k, IsPlace text offset above line below k := by
  rw [← Text.stacked_feedLines text] at h
  obtain ⟨above, line, below, k, hlines, hk, hoffset⟩ :=
    exists_place_stacked (Text.feedLines_ne_nil text) h
  exact ⟨above, line, below, k, hlines, hk, hoffset⟩

/-! ## The two searches

Before a place stand the lines above, each with its line feed, and a beginning of the place's own
line. In a text of that form, line feeds can be counted and the last one can be found: that is all
the searches do. -/

/-- The lines with the line feeds that end them. Stacked lines have none behind the last line; these
do. -/
def ended (lines : List Text) : Text := lines.flatMap fun line => line ++ [CodePoint.scalar '\n']

theorem length_ended (lines : List Text) : (ended lines).length = linesLength lines := by
  induction lines with
  | nil => rfl
  | cons line more ih =>
    rw [ended, List.flatMap_cons, ← ended, linesLength_cons, List.length_append,
      List.length_append, ih, List.length_singleton]

theorem stacked_append_cons (above : List Text) (line : Text) (below : List Text) :
    Text.stacked (above ++ line :: below) = ended above ++ Text.stacked (line :: below) := by
  induction above with
  | nil => rfl
  | cons first above ih =>
    have hne : above ++ line :: below ≠ [] := by simp
    rw [List.cons_append, Text.stacked_cons hne, ih]
    simp [ended]

theorem line_isPrefix (line : Text) (below : List Text) :
    line <+: Text.stacked (line :: below) := by
  cases below with
  | nil => exact ⟨[], by rw [Text.stacked_singleton, List.append_nil]⟩
  | cons next more =>
    rw [Text.stacked_cons (List.cons_ne_nil _ _)]
    exact List.prefix_append _ _

/-- The text before a place: the lines above with their ends, and the beginning of the place's own
line. No line feed stands in the latter, so the counting stops at the lines above. -/
theorem textBefore_place {offset : Nat} (h : IsPlace text offset above line below k) :
    textBefore text offset = ended above ++ line.take k := by
  obtain ⟨hlines, hk, rfl⟩ := h
  have hnat : ¬ ((linesLength above + k : Nat) : Int) < 0 := by omega
  have hline : (Text.stacked (line :: below)).take k = line.take k := by
    obtain ⟨rest, hrest⟩ := line_isPrefix line below
    rw [← hrest, List.take_append_of_le_length hk]
  rw [textBefore, if_neg hnat, Int.toNat_natCast, ← Text.stacked_feedLines text, hlines,
    stacked_append_cons, ← length_ended, List.take_length_add_append, hline]

theorem count_ended {lines : List Text} (h : ∀ line ∈ lines, CodePoint.scalar '\n' ∉ line) :
    (ended lines).count (CodePoint.scalar '\n') = lines.length := by
  induction lines with
  | nil => rfl
  | cons line more ih =>
    have hline := List.count_eq_zero.2 (h line List.mem_cons_self)
    have hmore := ih fun other hother => h other (List.mem_cons_of_mem _ hother)
    rw [ended, List.flatMap_cons, List.count_append, List.count_append, hline, ← ended, hmore,
      List.count_singleton_self, List.length_cons]
    omega

/-- Behind a line feed, or at the start of a text, the last line feed is as far away as no other
follows. Without lines above, the search finds nothing and counts from the start of the text, which
comes to the same. -/
theorem sinceLineFeed_ended {lines : List Text} (h : CodePoint.scalar '\n' ∉ line) :
    sinceLineFeed (ended lines ++ line) = line.length := by
  have hline : ∀ c ∈ line.reverse, decide (c ≠ CodePoint.scalar '\n') = true := by
    intro c hc
    rw [decide_eq_true_eq]
    rintro rfl
    exact h (List.mem_reverse.1 hc)
  have hended : ((ended lines).reverse).takeWhile
      (fun c => decide (c ≠ CodePoint.scalar '\n')) = [] := by
    rcases List.eq_nil_or_concat lines with rfl | ⟨lines, last, rfl⟩
    · rfl
    · simp [ended]
  rw [sinceLineFeed, List.reverse_append, List.takeWhile_append_of_pos hline, hended,
    List.append_nil, List.length_reverse]

/-- **At a place, the position is read off**: the line is one more than those above, the column one
more than the code points before the place on its line. -/
theorem ofOffset_place {offset : Nat} (h : IsPlace text offset above line below k) :
    ofOffset text offset = ⟨above.length + 1, (k : Int) + 1⟩ := by
  have hfeeds : ∀ other ∈ above ++ line :: below, CodePoint.scalar '\n' ∉ other :=
    fun other hother =>
    Text.not_mem_of_mem_feedLines (h.lines ▸ hother)
  have habove : ∀ other ∈ above, CodePoint.scalar '\n' ∉ other := fun other hother =>
    hfeeds other (List.mem_append_left _ hother)
  have hstart : CodePoint.scalar '\n' ∉ line.take k := fun hmem =>
    hfeeds line (List.mem_append_right _ List.mem_cons_self) (List.mem_of_mem_take hmem)
  have hlength : (line.take k).length = k := List.length_take_of_le h.le
  rw [ofOffset, textBefore_place h, List.count_append, count_ended habove,
    List.count_eq_zero.2 hstart, sinceLineFeed_ended hstart, List.length_append, length_ended,
    hlength, h.offset_eq]
  congr 1
  push_cast
  omega

/-! ## Positions in a text

The other direction. A position in the text names a line by its number, so it gives a place, and the
place gives the offset. Order is compared on places: with fewer lines above, the offset is smaller,
and with as many it is the column that decides. -/

/-- The positions in a text are those of its places. From left to right, the line is looked up by
its number and the ones before and behind it are taken for those above and below. -/
theorem isIn_iff {p : Position} :
    p.IsIn text ↔ ∃ above line below k, IsPlace text (linesLength above + k) above line below k ∧
      p = ⟨above.length + 1, (k : Int) + 1⟩ := by
  constructor
  · rintro ⟨hline, hlines, hcolumn, hend⟩
    have hlt : p.line - 1 < text.feedLines.length := by omega
    have hcolumn' := hend _ (List.getElem?_eq_getElem hlt)
    refine ⟨text.feedLines.take (p.line - 1), text.feedLines[p.line - 1],
      text.feedLines.drop (p.line - 1 + 1), (p.column - 1).toNat, ⟨?_, by omega, rfl⟩, ?_⟩
    · rw [← List.drop_eq_getElem_cons hlt, List.take_append_drop]
    · rw [List.length_take_of_le (Nat.le_of_lt hlt)]
      obtain ⟨line, column⟩ := p
      simp only [Position.mk.injEq] at hline hcolumn ⊢
      omega
  · rintro ⟨above, line, below, k, ⟨hlines, hk, _⟩, rfl⟩
    refine ⟨by simp, by simp [hlines], by dsimp only; omega, fun other hother => ?_⟩
    simp only [hlines, Nat.add_sub_cancel, List.getElem?_append_right (Nat.le_refl _), Nat.sub_self,
      List.getElem?_cons_zero, Option.mem_some_iff] at hother
    subst hother
    dsimp only
    omega

theorem offsetIn_place {offset : Nat} (h : IsPlace text offset above line below k) :
    offsetIn ⟨above.length + 1, (k : Int) + 1⟩ text = offset := by
  rw [offsetIn, h.lines, h.offset_eq, linesLength]
  simp only [Nat.add_sub_cancel, List.take_left]
  push_cast
  omega

/-- A place is in the text, for the lines of the text hold it. -/
theorem le_length_of_place {offset : Nat} (h : IsPlace text offset above line below k) :
    offset ≤ text.length := by
  have hlength := congrArg List.length (stacked_append_cons above line below)
  have hline := (line_isPrefix line below).length_le
  rw [← h.lines, Text.stacked_feedLines, List.length_append, length_ended] at hlength
  have hk := h.le
  have hoffset := h.offset_eq
  omega

/-- Of two places on different lines, the one on the lower line has the larger offset: the upper
line, with the line feed that ends it, lies between them. -/
theorem lt_of_length_lt {offset offset' k' : Nat} {line' : Text} {above' below' : List Text}
    (h : IsPlace text offset above line below k) (h' : IsPlace text offset' above' line' below' k')
    (hlt : above.length < above'.length) : offset < offset' := by
  -- The line of the first place is one of those above the second.
  have hprefix : above ++ [line] <+: above' := by
    refine List.prefix_of_prefix_length_le ?_ (h'.lines ▸ List.prefix_append above' _) ?_
    · rw [h.lines]
      exact ⟨below, by simp⟩
    · rwa [List.length_append, List.length_singleton]
  obtain ⟨between, rfl⟩ := hprefix
  have hk := h.le
  rw [h.offset_eq, h'.offset_eq, linesLength_append, linesLength_append, linesLength_cons]
  omega

theorem precedes_of_lt {offset offset' k' : Nat} {line' : Text} {above' below' : List Text}
    (h : IsPlace text offset above line below k) (h' : IsPlace text offset' above' line' below' k')
    (hlt : offset < offset') :
    Precedes ⟨above.length + 1, (k : Int) + 1⟩ ⟨above'.length + 1, (k' : Int) + 1⟩ := by
  rcases Nat.lt_trichotomy above.length above'.length with hline | hline | hline
  · exact .inl (by simpa using hline)
  · right
    have hlines := h.lines.symm.trans h'.lines
    obtain ⟨rfl, _⟩ := List.append_inj hlines hline
    have hoffset := h.offset_eq
    have hoffset' := h'.offset_eq
    exact ⟨rfl, by dsimp only; omega⟩
  · exact absurd (lt_of_length_lt h' h hline) (by omega)

/-- **Offsets and positions correspond one to one and in order.** Every offset up to the end of the
text has a position in the text, which gives the offset back; every position in the text is that of
one offset alone; and a larger offset has a later position. -/
theorem existsUnique_offset_and_precedes (text : Text) :
    (∀ i : Int, 0 ≤ i → i ≤ text.length →
      (ofOffset text i).IsIn text ∧ i = (ofOffset text i).offsetIn text) ∧
    (∀ p : Position, p.IsIn text → ∃! i : Int, (0 ≤ i ∧ i ≤ text.length) ∧ ofOffset text i = p) ∧
    ∀ i j : Int, 0 ≤ i → i < j → j ≤ text.length →
      (ofOffset text i).Precedes (ofOffset text j) := by
  -- Every offset has a place in some line, and all three parts are read from places.
  have hplace : ∀ i : Int, 0 ≤ i → i ≤ text.length →
      ∃ above line below k, IsPlace text i.toNat above line below k ∧
        ofOffset text i = ⟨above.length + 1, (k : Int) + 1⟩ := by
    intro i hi hlength
    obtain ⟨above, line, below, k, h⟩ := @exists_place text i.toNat (by omega)
    have hposition := ofOffset_place h
    rw [Int.toNat_of_nonneg hi] at hposition
    exact ⟨above, line, below, k, h, hposition⟩
  have hback : ∀ i : Int, 0 ≤ i → i ≤ text.length → i = (ofOffset text i).offsetIn text := by
    intro i hi hlength
    obtain ⟨above, line, below, k, h, hposition⟩ := hplace i hi hlength
    rw [hposition, offsetIn_place h, Int.toNat_of_nonneg hi]
  refine ⟨fun i hi hlength => ⟨?_, hback i hi hlength⟩, fun p hp => ?_,
    fun i j hi hij hlength => ?_⟩
  · obtain ⟨above, line, below, k, h, hposition⟩ := hplace i hi hlength
    exact isIn_iff.2 ⟨above, line, below, k, h.offset_eq ▸ h, hposition⟩
  · obtain ⟨above, line, below, k, h, rfl⟩ := isIn_iff.1 hp
    have hend := le_length_of_place h
    refine ⟨(linesLength above + k : Nat), ⟨⟨by omega, by omega⟩, ofOffset_place h⟩, ?_⟩
    rintro i ⟨⟨hi, hlength⟩, hposition⟩
    rw [hback i hi hlength, hposition, offsetIn_place h]
  · obtain ⟨above, line, below, k, h, hposition⟩ := hplace i hi (by omega)
    obtain ⟨above', line', below', k', h', hposition'⟩ := hplace j (by omega) hlength
    rw [hposition, hposition']
    exact precedes_of_lt h h' (by omega)

end Position

end MemberSynthesis
