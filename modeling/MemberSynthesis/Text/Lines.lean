import MemberSynthesis.Text.Basic

/-!
# Lines

Two notions of a line are in use, and they differ. **Feed lines** are the pieces between line feeds,
and nothing else ends one: a text with `n` line feeds has `n + 1` of them. **Lines** end at any of
the line ends of Unicode, the carriage return and line feed together counting once, and a line end
at the end of the text starts no further line. Only feed lines determine the text that they were cut
from (`stacked_feedLines`).
-/

set_option autoImplicit false

namespace MemberSynthesis

/-- Whether a code point ends a line: line feed, line tabulation, form feed, carriage return, the
file, group and record separators, next line, and the line and paragraph separators. -/
def CodePoint.isLineEnd (c : CodePoint) : Bool :=
  (0x0A ≤ c.toNat && c.toNat ≤ 0x0D) || (0x1C ≤ c.toNat && c.toNat ≤ 0x1E) || c.toNat = 0x85 ||
    c.toNat = 0x2028 || c.toNat = 0x2029

namespace Text

/-- The lines of a text, without their ends. A carriage return right before a line feed belongs to
the line end. -/
def lines : Text → List Text
  | [] => []
  | c :: rest =>
    -- The line feed that comes next ends the line.
    if c = '\r' ∧ rest.head? = some (CodePoint.scalar '\n') then lines rest
    else if c.isLineEnd then [] :: lines rest
    else
      match lines rest with
      | [] => [[c]]
      | line :: more => (c :: line) :: more

/-- The pieces of a text between its line feeds. -/
def feedLines : Text → List Text
  | [] => [[]]
  | c :: rest =>
    if c = '\n' then [] :: feedLines rest
    else
      match feedLines rest with
      | [] => [[c]]
      | line :: more => (c :: line) :: more

/-- The texts one below the other, with a line feed between each two. -/
def stacked (texts : List Text) : Text := joined ['\n'] texts

/-- The text without the line feeds at its two ends. -/
def stripFeeds (text : Text) : Text := strip (fun c => c = '\n') text

/-- A line moved right by an indent; an empty line stays empty. -/
def indented (indent line : Text) : Text := if line = [] then [] else indent ++ line

/-! ## Cutting a text into feed lines loses nothing -/

theorem feedLines_ne_nil (text : Text) : feedLines text ≠ [] := by
  cases text with
  | nil => simp [feedLines]
  | cons c rest =>
    rw [feedLines]
    split
    · simp
    · split <;> simp

theorem stacked_cons {line : Text} {more : List Text} (h : more ≠ []) :
    stacked (line :: more) = line ++ CodePoint.scalar '\n' :: stacked more := by
  cases more with
  | nil => exact absurd rfl h
  | cons next more => simp [stacked, joined, List.intercalate, List.intersperse]

/-- **The feed lines, one below the other, are the text again.** -/
theorem stacked_feedLines (text : Text) : stacked (feedLines text) = text := by
  induction text with
  | nil => rfl
  | cons c rest ih =>
    rw [feedLines]
    split
    · rename_i hc
      rw [stacked_cons (feedLines_ne_nil rest), ih, hc]
      rfl
    · split
      · rename_i hnil
        exact absurd hnil (feedLines_ne_nil rest)
      · rename_i line more hcons
        rw [hcons] at ih
        cases more with
        | nil => simpa [stacked, joined, List.intercalate] using ih
        | cons next more =>
          rw [stacked_cons (List.cons_ne_nil _ _)] at ih ⊢
          rw [List.cons_append, ih]

theorem not_mem_of_mem_feedLines {text line : Text} (h : line ∈ feedLines text) :
    CodePoint.scalar '\n' ∉ line := by
  induction text generalizing line with
  | nil => simp_all [feedLines]
  | cons c rest ih =>
    rw [feedLines] at h
    split at h
    · rcases List.mem_cons.1 h with rfl | h
      · simp
      · exact ih h
    · rename_i hc
      split at h
      · rename_i hnil
        exact absurd hnil (feedLines_ne_nil rest)
      · rename_i first more hcons
        rw [hcons] at ih
        rcases List.mem_cons.1 h with rfl | h
        · simp [ih List.mem_cons_self, Ne.symm hc]
        · exact ih (List.mem_cons_of_mem _ h)

end Text

end MemberSynthesis
