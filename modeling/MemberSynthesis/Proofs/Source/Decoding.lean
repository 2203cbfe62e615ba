import MemberSynthesis.Proofs.Source.Offsets
import MemberSynthesis.Proofs.Source.Tokens
import MemberSynthesis.Proofs.Text.HexNumeral

/-!
# Decoding a string literal in place

A string literal is found by the scanner and then read a second time, token by token. Two readers do
the second part. `Text.decode` reads in the whole text with a cursor, which no test keeps from
running past the closing quote; `StringContent.read` is given what stands between the quotes, and
its offsets are moved afterwards.

**Both come to the same, and the cursor ends on the closing quote** (`Text.decodeFrom_eq`). What
they come to is known from the tokens alone (`StringToken.read_of_standsFor`,
`StringToken.read_of_blamed`): each token stands for a text of its own, and the first one that
stands for none is blamed. So the value of a literal is a flattened map over its tokens, and no
reader has to be opened to see what a literal says.

## Where the two readers differ

An interpolation is copied as it is written, backslash and brackets included. The reader with a
cursor finds its end by a search in the whole text, the other one by a scan of what it was given;
`closerOf_interpolation` says that the two ends are one. The numeral of an escape is looked for up
to the closing quote in both cases, which the reader with a cursor has to be told. Everything else
is a backslash and one code point.

That the split into tokens exists and is the only one is proved before, for what the scanner takes
for a literal. Here it is a hypothesis, `StringToken.Splits`.
-/

set_option autoImplicit false

namespace MemberSynthesis

namespace StringToken

/-! ## What tokens stand for

The meaning of a token, without a reader: a table of seven escapes, the numerals in braces by their
value, and everything else as it is. -/

/-- The letters and signs that stand for one code point behind a backslash, in a table. Both readers
know them by a match. -/
def simpleEscapes : List (CodePoint × CodePoint) :=
  [('n', '\n'), ('t', '\t'), ('r', '\r'), ('0', '\x00'), ('\\', '\\'), ('"', '"'), ('\'', '\'')]

/-- The token stands for the text. An interpolation stands for its own source, with the backslash
and the brackets. -/
inductive StandsFor : StringToken → Text → Prop
  | point {c : CodePoint} : StandsFor (point c) [c]
  | interpolation {inner : Text} : StandsFor (interpolation inner) (interpolation inner).written
  | numbered {numeral : Text} {c : CodePoint} :
    HexNumeral.value? numeral = some (c.toNat : Int) → StandsFor (numbered numeral) [c]
  | escape {c d : CodePoint} : (c, d) ∈ simpleEscapes → StandsFor (escape c) [d]

/-- The token is one that literals can hold: a backslash starts an interpolation, one of seven
simple escapes, or a number from zero to `0x10FFFF`. -/
def IsAccepted : StringToken → Prop
  | point _ => True
  | interpolation _ => True
  | numbered numeral => ∃ n : Nat, n ≤ 0x10FFFF ∧ HexNumeral.value? numeral = some (n : Int)
  | escape c => c ∈ simpleEscapes.map Prod.fst

/-- Whether the token is an interpolation. -/
def isInterpolation : StringToken → Bool
  | interpolation _ => true
  | _ => false

/-- The cause that a token which literals can not hold gives. Braces that are not closed are no
number, but they are blamed as if they were one. -/
def Blames : StringToken → ReadCause → Prop
  | numbered _, cause => cause = .invalidUnicodeEscape
  | escape c, cause => cause = .invalidEscape c ∨ (c = 'u' ∧ cause = .invalidUnicodeEscape)
  | _, _ => False

theorem simple?_eq_some_iff {c d : CodePoint} :
    Escape.simple? c = some d ↔ (c, d) ∈ simpleEscapes := by
  constructor
  · intro h
    unfold Escape.simple? at h
    repeat' split at h
    all_goals first | cases h; simp_all [simpleEscapes] | cases h
  · intro h
    simp only [simpleEscapes, List.mem_cons, List.not_mem_nil, or_false, Prod.mk.injEq] at h
    rcases h with ⟨rfl, rfl⟩ | ⟨rfl, rfl⟩ | ⟨rfl, rfl⟩ | ⟨rfl, rfl⟩ | ⟨rfl, rfl⟩ | ⟨rfl, rfl⟩ |
      ⟨rfl, rfl⟩ <;> rfl

theorem isAccepted_iff {token : StringToken} :
    token.IsAccepted ↔ ∃ value, token.StandsFor value := by
  cases token with
  | point c => exact ⟨fun _ => ⟨_, .point⟩, fun _ => trivial⟩
  | interpolation inner => exact ⟨fun _ => ⟨_, .interpolation⟩, fun _ => trivial⟩
  | numbered numeral =>
    constructor
    · rintro ⟨n, hn, hvalue⟩
      obtain ⟨c, rfl⟩ := CodePoint.exists_toNat_eq_iff.2 hn
      exact ⟨_, .numbered hvalue⟩
    · rintro ⟨_, hvalue⟩
      cases hvalue with
      | @numbered _ c hvalue => exact ⟨c.toNat, CodePoint.exists_toNat_eq_iff.1 ⟨c, rfl⟩, hvalue⟩
  | escape c =>
    constructor
    · intro h
      obtain ⟨⟨_, d⟩, hd, rfl⟩ := List.mem_map.1 h
      exact ⟨_, .escape hd⟩
    · rintro ⟨_, hvalue⟩
      cases hvalue with
      | escape hd => exact List.mem_map_of_mem hd

end StringToken

/-! ## The first token

Reading is reading the first token and then what follows it. For each kind of token, what is read
and how long it is. -/

namespace StringContent

open StringToken (Splits StandsFor Blames)

variable {after text : Text} {token : StringToken} {tokens : List StringToken}

/-- Reads what a text starts with, if it stands between the quotes of a literal: what this stands
for, and the number of code points it takes. -/
def readFirst : Text → Reading (StringContent × Nat)
  | [] => .error ⟨.pastEnd, 0⟩
  | c :: rest =>
    if c = '\\' then do
      let escape ← Escape.read rest
      return (⟨escape.value, escape.interpolated⟩, escape.length + 1)
    else return (⟨[c], false⟩, 1)

/-- The text between the quotes is read by reading first what it starts with. The faults behind it
are moved by what it takes. -/
theorem read_eq_readFirst (hne : text ≠ []) :
    read text = (do
      let (part, length) ← readFirst text
      let content ← Reading.moved length (read (text.drop length))
      return content.prepend part.value part.interpolated) := by
  obtain ⟨c, rest, rfl⟩ := List.exists_cons_of_ne_nil hne
  rw [read, readFirst]
  split
  · cases Escape.read rest <;> rfl
  · rfl

/-- A number in braces that is closed is read by its value, if that is the number of a code
point. -/
theorem read_numbered {numeral more : Text} (h : CodePoint.scalar '\x7d' ∉ numeral) :
    Escape.read (CodePoint.scalar 'u' :: CodePoint.scalar '\x7b' ::
      (numeral ++ CodePoint.scalar '\x7d' :: more)) =
      match HexNumeral.codePoint? numeral with
      | some named => .ok ⟨[named], false, numeral.length + 3⟩
      | none => .error ⟨.invalidUnicodeEscape, 0⟩ := by
  rw [Escape.read, if_neg (by decide), if_pos ⟨rfl, rfl⟩]
  simp only [List.drop_succ_cons, List.drop_zero, StringToken.takeWhile_numeral_append h]
  cases HexNumeral.codePoint? numeral with
  | none => rfl
  | some named => exact if_pos (by simp)

/-- Braces that are not closed hold no number. They are blamed at the backslash, like a number that
is none. -/
theorem read_unclosed {more : Text} (h : CodePoint.scalar '\x7d' ∉ more) :
    Escape.read (CodePoint.scalar 'u' :: CodePoint.scalar '\x7b' :: more) =
      .error ⟨.invalidUnicodeEscape, 0⟩ := by
  rw [Escape.read, if_neg (by decide), if_pos ⟨rfl, rfl⟩]
  simp only [List.drop_succ_cons, List.drop_zero, StringToken.takeWhile_numeral h]
  cases HexNumeral.codePoint? more with
  | none => rfl
  | some named => exact if_neg (by simp)

theorem read_interpolation {inner more : Text}
    (h : Grammar.Balanced inner (CodePoint.scalar ')' :: (more ++ after))) :
    Escape.read (CodePoint.scalar '(' :: (inner ++ CodePoint.scalar ')' :: more)) =
      .ok ⟨(StringToken.interpolation inner).written, true, inner.length + 2⟩ := by
  have hgroup := Grammar.isGroup_of_isBalanced .round
    (Text.isBalanced_of_passes (h.passes 0)) more 0
  have hunit : Text.unitEnd (CodePoint.scalar '(' :: (inner ++ CodePoint.scalar ')' :: more)) =
      .ok (inner.length + 1) := hgroup.unitEndFrom.trans (congrArg Except.ok (by omega))
  have htake : (CodePoint.scalar '(' :: (inner ++ CodePoint.scalar ')' :: more)).take
      (inner.length + 2) = CodePoint.scalar '(' :: (inner ++ [CodePoint.scalar ')']) := by
    have hlength : (inner ++ [CodePoint.scalar ')']).length = inner.length + 1 := by simp
    rw [List.take_succ_cons, List.append_cons, ← hlength, List.take_left]
  rw [Escape.read, if_pos rfl, hunit]
  show Except.ok (Escape.mk (_ :: List.take (inner.length + 2) _) true (inner.length + 2)) = _
  rw [htake]
  rfl

/-- A backslash and one code point are read as one of the simple escapes, or blamed. This is the
case that remains when the other two are excluded. -/
theorem read_simple {c : CodePoint} {more : Text} (hround : c ≠ '(')
    (hopens : ¬ StringToken.OpensNumeral (c :: more)) :
    (∀ d, (c, d) ∈ StringToken.simpleEscapes → Escape.read (c :: more) = .ok ⟨[d], false, 1⟩) ∧
    (¬ (StringToken.escape c).IsAccepted →
      ∃ cause, (StringToken.escape c).Blames cause ∧
        Escape.read (c :: more) = .error ⟨cause, 0⟩) := by
  by_cases hbrace : c = 'u' ∧ more.head? = some (CodePoint.scalar '\x7b')
  · obtain ⟨rfl, hhead⟩ := hbrace
    obtain ⟨braced, rfl⟩ := List.head?_eq_some_iff.1 hhead
    rw [read_unclosed fun hclosed => hopens ⟨braced, rfl, hclosed⟩]
    have hnot : ∀ d, (CodePoint.scalar 'u', d) ∉ StringToken.simpleEscapes := by
      simp [StringToken.simpleEscapes]
    exact ⟨fun d hd => absurd hd (hnot d), fun _ => ⟨_, .inr ⟨rfl, rfl⟩, rfl⟩⟩
  · rw [Escape.read, if_neg hround, if_neg hbrace]
    constructor
    · intro d hd
      rw [StringToken.simple?_eq_some_iff.2 hd]
    · intro hnot
      refine ⟨_, .inl rfl, ?_⟩
      cases hsimple : Escape.simple? c with
      | none => rfl
      | some d =>
        exact absurd (List.mem_map_of_mem (StringToken.simple?_eq_some_iff.1 hsimple)) hnot

/-- What a text starts with is its first token, and this is what it stands for, or it is blamed at
its first code point. -/
theorem readFirst_of_splits (h : Splits after text (token :: tokens)) :
    (∀ value, StandsFor token value →
      readFirst text = .ok (⟨value, token.isInterpolation⟩, token.written.length)) ∧
    (¬ token.IsAccepted → ∃ cause, token.Blames cause ∧ readFirst text = .error ⟨cause, 0⟩) := by
  cases h with
  | point hc _ =>
    refine ⟨?_, fun hnot => absurd trivial hnot⟩
    rintro _ ⟨⟩
    exact if_neg hc
  | interpolation hinner _ =>
    refine ⟨?_, fun hnot => absurd trivial hnot⟩
    rintro _ ⟨⟩
    rw [readFirst, if_pos rfl, read_interpolation hinner]
    simp [StringToken.written, StringToken.isInterpolation, bind, Except.bind, pure, Except.pure]
  -- The one token whose acceptance depends on its value.
  | numbered hnumeral _ =>
    rw [readFirst, if_pos rfl, read_numbered hnumeral]
    constructor
    · rintro _ ⟨⟩
      rename_i c hvalue
      rw [HexNumeral.codePoint?_eq_some_iff.2 hvalue]
      simp [StringToken.written, StringToken.isInterpolation, bind, Except.bind, pure, Except.pure]
    · intro hnot
      refine ⟨_, rfl, ?_⟩
      cases hnamed : HexNumeral.codePoint? _ with
      | none => rfl
      | some c =>
        have hvalue := HexNumeral.codePoint?_eq_some_iff.1 hnamed
        exact absurd (StringToken.isAccepted_iff.2 ⟨_, .numbered hvalue⟩) hnot
  | escape hround hopens _ =>
    rw [readFirst, if_pos rfl]
    obtain ⟨hsimple, hblamed⟩ := read_simple hround hopens
    constructor
    · rintro _ ⟨⟩
      rw [hsimple _ ‹_›]
      rfl
    · intro hnot
      obtain ⟨cause, hcause, hread⟩ := hblamed hnot
      exact ⟨cause, hcause, by rw [hread]; rfl⟩

/-! ## All tokens -/

theorem read_of_readFirst {part : StringContent} {more : Text}
    (h : readFirst (token.written ++ more) = .ok (part, token.written.length)) :
    read (token.written ++ more) = (do
      let content ← Reading.moved token.written.length (read more)
      return content.prepend part.value part.interpolated) := by
  have hne : token.written ++ more ≠ [] := List.append_ne_nil_of_left_ne_nil
    token.written_ne_nil more
  rw [read_eq_readFirst hne, h]
  show (Reading.moved _ (read (List.drop token.written.length (token.written ++ more))) >>= _) = _
  rw [List.drop_left]

/-- **Text that is split into tokens which all stand for something is read as what they stand for**,
and has an interpolation just when one of the tokens is. -/
theorem read_of_standsFor {values : List Text} (h : Splits after text tokens)
    (hvalues : List.Forall₂ StandsFor tokens values) :
    read text = .ok ⟨values.flatten, tokens.any StringToken.isInterpolation⟩ := by
  induction hvalues generalizing text with
  | nil =>
    cases h
    rw [read]
    rfl
  | cons hvalue _ ih =>
    obtain ⟨more, rfl, hmore⟩ := h.of_cons
    rw [read_of_readFirst ((readFirst_of_splits h).1 _ hvalue), ih hmore]
    rfl

/-- **The first token that stands for nothing is blamed**, at its backslash. Those before it are
accepted, and those behind it are not looked at. -/
theorem read_of_blamed {before later : List StringToken}
    (h : Splits after text (before ++ token :: later))
    (hbefore : ∀ other ∈ before, other.IsAccepted) (htoken : ¬ token.IsAccepted) :
    ∃ cause, token.Blames cause ∧
      read text = .error ⟨cause, (before.flatMap StringToken.written).length⟩ := by
  induction before generalizing text with
  | nil =>
    obtain ⟨cause, hcause, hfirst⟩ := (readFirst_of_splits h).2 htoken
    refine ⟨cause, hcause, ?_⟩
    obtain ⟨more, rfl, _⟩ := h.of_cons
    rw [read_eq_readFirst (List.append_ne_nil_of_left_ne_nil token.written_ne_nil more), hfirst]
    rfl
  | cons other before ih =>
    obtain ⟨more, rfl, hmore⟩ := h.of_cons
    obtain ⟨hother, hbefore⟩ := List.forall_mem_cons.1 hbefore
    obtain ⟨value, hvalue⟩ := StringToken.isAccepted_iff.1 hother
    obtain ⟨cause, hcause, hread⟩ := ih hmore hbefore
    refine ⟨cause, hcause, ?_⟩
    rw [read_of_readFirst ((readFirst_of_splits h).1 _ hvalue), hread, List.flatMap_cons,
      List.length_append]
    rfl

end StringContent

namespace StringToken

/-- All tokens are accepted, or there is a first one that is not. The two cases in which a literal
is read or blamed. -/
theorem forall_or_exists_first (tokens : List StringToken) :
    (∀ token ∈ tokens, token.IsAccepted) ∨
      ∃ before token later, tokens = before ++ token :: later ∧
        (∀ other ∈ before, other.IsAccepted) ∧ ¬ token.IsAccepted := by
  induction tokens with
  | nil => exact .inl fun _ hmem => absurd hmem List.not_mem_nil
  | cons token tokens ih =>
    by_cases htoken : token.IsAccepted
    · rcases ih with hall | ⟨before, other, later, rfl, hbefore, hother⟩
      · exact .inl (List.forall_mem_cons.2 ⟨htoken, hall⟩)
      · exact .inr ⟨token :: before, other, later, rfl,
          List.forall_mem_cons.2 ⟨htoken, hbefore⟩, hother⟩
    · exact .inr ⟨[], token, tokens, rfl, fun _ hmem => absurd hmem List.not_mem_nil, htoken⟩

theorem forall_isAccepted_iff {tokens : List StringToken} :
    (∀ token ∈ tokens, token.IsAccepted) ↔ ∃ values, List.Forall₂ StandsFor tokens values := by
  induction tokens with
  | nil => exact ⟨fun _ => ⟨[], .nil⟩, fun _ _ hmem => absurd hmem List.not_mem_nil⟩
  | cons token tokens ih =>
    rw [List.forall_mem_cons, isAccepted_iff, ih]
    constructor
    · rintro ⟨⟨value, hvalue⟩, values, hvalues⟩
      exact ⟨value :: values, .cons hvalue hvalues⟩
    · rintro ⟨_, hvalues⟩
      cases hvalues with
      | cons hvalue hvalues => exact ⟨⟨_, hvalue⟩, _, hvalues⟩

theorem any_isInterpolation_iff {tokens : List StringToken} :
    tokens.any isInterpolation ↔ ∃ inner, interpolation inner ∈ tokens := by
  rw [List.any_eq_true]
  constructor
  · rintro ⟨token, hmem, htoken⟩
    cases token with
    | interpolation inner => exact ⟨inner, hmem⟩
    | point | numbered | escape => cases htoken
  · rintro ⟨inner, hmem⟩
    exact ⟨_, hmem, rfl⟩

end StringToken

/-- **The text between the quotes is read just when each token stands for something**, and then as
all of that, one after the other. -/
theorem StringContent.read_eq_ok_iff {after text : Text} {tokens : List StringToken}
    {content : StringContent} (h : StringToken.Splits after text tokens) :
    read text = .ok content ↔ ∃ values, List.Forall₂ StringToken.StandsFor tokens values ∧
      content = ⟨values.flatten, tokens.any StringToken.isInterpolation⟩ := by
  constructor
  · intro hread
    rcases StringToken.forall_or_exists_first tokens with hall | ⟨_, _, _, rfl, hbefore, htoken⟩
    · obtain ⟨values, hvalues⟩ := StringToken.forall_isAccepted_iff.1 hall
      rw [read_of_standsFor h hvalues] at hread
      exact ⟨values, hvalues, (Except.ok.inj hread).symm⟩
    · obtain ⟨_, _, herror⟩ := read_of_blamed h hbefore htoken
      rw [herror] at hread
      cases hread
  · rintro ⟨values, hvalues, rfl⟩
    exact read_of_standsFor h hvalues

/-! ## The reader with a cursor

The same reader, but in the whole text: offsets are those of the text, and only the search for a
closing brace is told where the literal ends. -/

namespace Text

/-- Reads what stands at `i` in the string literal whose closing quote stands at `stop`: what this
stands for, and the offset after it. -/
def decodeAt (text : Text) (stop i : Nat) : Reading (StringContent × Nat) :=
  match text.drop i with
  | [] => .error ⟨.pastEnd, i⟩
  | c :: rest =>
    if c = '\\' then
      match rest with
      | [] => .error ⟨.pastEnd, i + 1⟩
      | d :: more =>
        if d = '(' then do
          let close ← text.closerOf (i + 1)
          return (⟨(text.take (close + 1)).drop i, true⟩, close + 1)
        else if d = 'u' ∧ more.head? = some (CodePoint.scalar '\x7b') then
          -- Only the search for the closing brace minds where the literal ends.
          let braced := (text.take stop).drop (i + 3)
          let numeral := braced.takeWhile fun d => d ≠ CodePoint.scalar '\x7d'
          match HexNumeral.codePoint? numeral with
          | some named =>
            if numeral.length < braced.length then .ok (⟨[named], false⟩, i + (numeral.length + 4))
            else .error ⟨.invalidUnicodeEscape, i⟩
          | none => .error ⟨.invalidUnicodeEscape, i⟩
        else
          match Escape.simple? d with
          | some meant => .ok (⟨[meant], false⟩, i + 2)
          | none => .error ⟨.invalidEscape d, i⟩
    else .ok (⟨[c], false⟩, i + 1)

theorem lt_of_decodeAt {text : Text} {stop i next : Nat} {part : StringContent}
    (h : decodeAt text stop i = .ok (part, next)) : i < next := by
  unfold decodeAt at h
  split at h
  · cases h
  · split at h
    · split at h
      · cases h
      · split at h
        · obtain ⟨close, hclose, hnext⟩ := Reading.bind_eq_ok.1 h
          obtain ⟨last, _, hlast⟩ := Reading.bind_eq_ok.1 hclose
          cases hnext
          cases hlast
          omega
        · split at h
          · dsimp only at h
            split at h
            · split at h
              · cases h
                omega
              · cases h
            · cases h
          · split at h
            · cases h
              omega
            · cases h
    · cases h
      omega

/-- Reads the string literal whose closing quote stands at `stop` from `i` on. The second result is
where the cursor ends, which could be behind the quote. -/
def decodeFrom (text : Text) (stop i : Nat) : Reading (StringContent × Nat) :=
  if i < stop then
    match hpart : decodeAt text stop i with
    | .error fault => .error fault
    | .ok (part, next) => do
      have : i < next := lt_of_decodeAt hpart
      let (content, cursor) ← decodeFrom text stop next
      return (content.prepend part.value part.interpolated, cursor)
  else .ok (⟨[], false⟩, i)
termination_by stop - i

/-- Reads the string literal that reaches from `start` up to `e`. -/
def decode (text : Text) (start e : Nat) : Reading (StringContent × Nat) :=
  decodeFrom text (e - 1) (start + 1)

/-! ## The two readers agree

Token by token: with anything in front of the literal, the reader with a cursor makes of the first
token what the other one does, moved. Then a run is an induction over the tokens. -/

section Agreement

open StringToken (Splits)

variable {after inside : Text} {token : StringToken} {tokens : List StringToken}

/-- What the reader with a cursor makes of what a text starts with, if `front` stands before it. -/
def inPlace (front : Text) (first : Reading (StringContent × Nat)) :
    Reading (StringContent × Nat) :=
  (first.moved front.length).map fun part => (part.1, front.length + part.2)

theorem closerOf_interpolation (front : Text) {inner more : Text}
    (h : Grammar.Balanced inner (CodePoint.scalar ')' :: more)) :
    closerOf (front ++ (CodePoint.scalar '\\' :: CodePoint.scalar '(' ::
      (inner ++ CodePoint.scalar ')' :: more))) (front.length + 1) =
      .ok (front.length + (inner.length + 2)) := by
  have hdrop : (front ++ (CodePoint.scalar '\\' :: CodePoint.scalar '(' ::
      (inner ++ CodePoint.scalar ')' :: more))).drop (front.length + 1) =
      CodePoint.scalar '(' :: (inner ++ CodePoint.scalar ')' :: more) := by
    rw [← List.drop_drop, List.drop_left, List.drop_succ_cons, List.drop_zero]
  have hunit : unitEnd (CodePoint.scalar '(' :: (inner ++ CodePoint.scalar ')' :: more)) =
      .ok (inner.length + 1) :=
    (@Grammar.unitEnd_opener_iff .round _ _).2 ⟨inner, more, rfl, h, rfl⟩
  rw [closerOf, hdrop, hunit]
  exact congrArg Except.ok (by omega)

theorem decodeAt_interpolation (front : Text) {inner more : Text}
    (h : Grammar.Balanced inner (CodePoint.scalar ')' :: more)) (stop : Nat) :
    decodeAt (front ++ (CodePoint.scalar '\\' :: CodePoint.scalar '(' ::
      (inner ++ CodePoint.scalar ')' :: more))) stop front.length =
      .ok (⟨(StringToken.interpolation inner).written, true⟩,
        front.length + (inner.length + 3)) := by
  have hwritten : CodePoint.scalar '\\' :: CodePoint.scalar '(' ::
      (inner ++ CodePoint.scalar ')' :: more) = (StringToken.interpolation inner).written ++
        more := by
    simp [StringToken.written]
  have hlength : (StringToken.interpolation inner).written.length = inner.length + 3 := by
    simp [StringToken.written]
  have hslice := (drop_eq_append_iff.1 (@List.drop_left _ front
    ((StringToken.interpolation inner).written ++ more))).1
  rw [hlength, ← hwritten] at hslice
  rw [decodeAt, List.drop_left]
  simp only [if_pos, closerOf_interpolation front h]
  show Except.ok
    (StringContent.mk (List.drop _ (List.take (front.length + (inner.length + 3)) _)) true, _) = _
  rw [hslice]
  rfl

theorem decodeAt_brace (front braced after : Text) :
    decodeAt (front ++ (CodePoint.scalar '\\' :: CodePoint.scalar 'u' :: CodePoint.scalar '\x7b' ::
        (braced ++ after))) (front.length + (braced.length + 3)) front.length =
      inPlace front (StringContent.readFirst (CodePoint.scalar '\\' :: CodePoint.scalar 'u' ::
        CodePoint.scalar '\x7b' :: braced)) := by
  have hdrop :
      (front ++ (CodePoint.scalar '\\' :: CodePoint.scalar 'u' :: CodePoint.scalar '\x7b' ::
        (braced ++ after))).drop (front.length + 3) = braced ++ after := by
    rw [← List.drop_drop, List.drop_left]
    rfl
  have hbraced := (drop_eq_append_iff.1 hdrop).1
  rw [Nat.add_assoc, Nat.add_comm 3] at hbraced
  rw [decodeAt, List.drop_left, StringContent.readFirst]
  simp only [if_pos, hbraced]
  rw [Escape.read]
  simp only [List.head?_cons, List.drop_succ_cons, List.drop_zero, List.length_cons,
    Nat.add_lt_add_iff_right]
  cases HexNumeral.codePoint? (braced.takeWhile fun d => d ≠ CodePoint.scalar '\x7d') with
  | none => rfl
  | some named =>
    by_cases hclosed : (braced.takeWhile fun d => d ≠ CodePoint.scalar '\x7d').length <
      braced.length
    · simp only [if_pos hclosed]
      rfl
    · simp only [if_neg hclosed]
      rfl

/-- **The reader with a cursor does what the reader of the text between the quotes does**, on what
the text starts with and wherever it stands. -/
theorem decodeAt_eq (h : Splits after inside (token :: tokens))
    (hafter : after.head? = some (CodePoint.scalar '"')) (front : Text) :
    decodeAt (front ++ (inside ++ after)) (front.length + inside.length) front.length =
      inPlace front (StringContent.readFirst inside) := by
  cases h with
  | point hc _ =>
    rw [decodeAt, List.drop_left]
    simp only [List.cons_append, if_neg hc, StringContent.readFirst]
    rfl
  | @interpolation inner more _ hinner _ =>
    rw [StringContent.readFirst, if_pos rfl, StringContent.read_interpolation hinner,
      List.cons_append, List.cons_append, List.append_assoc, List.cons_append]
    exact decodeAt_interpolation front hinner _
  | @numbered numeral more _ hnumeral _ => exact decodeAt_brace front _ after
  | @escape c more _ hround _ _ =>
    -- The one escape that looks further than its code point: braces that are not closed.
    by_cases hbrace : c = 'u' ∧ more.head? = some (CodePoint.scalar '\x7b')
    · obtain ⟨rfl, hhead⟩ := hbrace
      obtain ⟨braced, rfl⟩ := List.head?_eq_some_iff.1 hhead
      exact decodeAt_brace front braced after
    · have hbrace' : ¬ (c = 'u' ∧ (more ++ after).head? = some (CodePoint.scalar '\x7b')) := by
        rintro ⟨hc, hhead⟩
        rw [List.head?_append, hafter] at hhead
        cases more with
        | nil => exact absurd (Option.some.inj hhead) (by decide)
        | cons d more => exact hbrace ⟨hc, hhead⟩
      rw [decodeAt, List.drop_left, StringContent.readFirst]
      simp only [List.cons_append, if_pos, if_neg hround, if_neg hbrace', Escape.read,
        if_neg hbrace]
      cases Escape.simple? c <;> rfl

theorem decodeFrom_of_error {text : Text} {stop i : Nat} {fault : ReadFault} (hi : i < stop)
    (h : decodeAt text stop i = .error fault) : decodeFrom text stop i = .error fault := by
  rw [decodeFrom, if_pos hi]
  split
  · rename_i fault' hfault
    rw [h] at hfault
    cases hfault
    rfl
  · rename_i hpart
    rw [h] at hpart
    cases hpart

theorem decodeFrom_of_ok {text : Text} {stop i next : Nat} {part : StringContent} (hi : i < stop)
    (h : decodeAt text stop i = .ok (part, next)) :
    decodeFrom text stop i = (do
      let (content, cursor) ← decodeFrom text stop next
      return (content.prepend part.value part.interpolated, cursor)) := by
  rw [decodeFrom, if_pos hi]
  split
  · rename_i hfault
    rw [h] at hfault
    cases hfault
  · rename_i hpart
    rw [h] at hpart
    cases hpart
    rfl

/-- **The cursor runs through the tokens and ends on the closing quote.** It is never behind it, for
each token ends before it or right at it. -/
theorem decodeFrom_eq (h : Splits after inside tokens)
    (hafter : after.head? = some (CodePoint.scalar '"')) (front : Text) :
    decodeFrom (front ++ (inside ++ after)) (front.length + inside.length) front.length =
      ((StringContent.read inside).moved front.length).map fun content =>
        (content, front.length + inside.length) := by
  induction tokens generalizing front inside with
  | nil =>
    cases h
    rw [decodeFrom, if_neg (by simp), StringContent.read]
    rfl
  | cons token tokens ih =>
    -- One step in place is one step on what is left, and the rest is the induction, with the token
    -- in front.
    have hplace := decodeAt_eq h hafter front
    obtain ⟨hok, herror⟩ := StringContent.readFirst_of_splits h
    obtain ⟨more, rfl, hmore⟩ := h.of_cons
    have hpos := List.length_pos_iff.2 token.written_ne_nil
    have hlt : front.length < front.length + (token.written ++ more).length := by
      rw [List.length_append]
      omega
    by_cases htoken : token.IsAccepted
    · obtain ⟨value, hvalue⟩ := StringToken.isAccepted_iff.1 htoken
      rw [hok value hvalue] at hplace
      have hrest := ih hmore (front ++ token.written)
      rw [List.append_assoc, ← List.append_assoc token.written, List.length_append, Nat.add_assoc,
        ← List.length_append] at hrest
      rw [decodeFrom_of_ok hlt hplace, StringContent.read_of_readFirst (hok value hvalue)]
      dsimp only
      rw [hrest]
      cases StringContent.read more <;> simp [Reading.moved, Except.map, bind, Except.bind, pure,
        Except.pure, Nat.add_assoc]
    · obtain ⟨cause, _, hfirst⟩ := herror htoken
      rw [hfirst] at hplace
      rw [decodeFrom_of_error hlt hplace, StringContent.read_eq_readFirst
        (List.append_ne_nil_of_left_ne_nil token.written_ne_nil more), hfirst]
      rfl

end Agreement

end Text

end MemberSynthesis
