import Mathlib.Data.List.TakeWhile
import MemberSynthesis.Proofs.Source.Grammar
import MemberSynthesis.Source.StringLiteral

/-!
# What a string literal is made of

Between its quotes, a string literal is a sequence of **tokens**: code points that stand for
themselves, interpolations, numbers in braces, and backslashes with one code point each.
`StringToken.Splits` says how a text is split into tokens, without a reader and without a scanner.

**What the scanner takes for a literal is split in just one way** (`exists_splits`,
`Splits.unique`). That some split exists is not clear from the scanner's own steps: braces mean
nothing to it inside a literal, so a number in braces may end for the tokens where the scanner is in
the middle of an interpolation. All that matters is where it can not be then: a closing brace and
the code point after a backslash leave no backslash waiting (`Opening.IsSettled`), and from any such
state the scanner still has to get to the closing quote.

So the induction that gives the split can not follow the run of the scanner step by step. It is on
the length of the text before the quote, for every state of the scanner in which nothing waits; and
the text may be cut wherever a token ends, in whatever state the scanner happens to be there.
-/

set_option autoImplicit false

namespace MemberSynthesis

/-- What a string literal is made of between its quotes. -/
inductive StringToken where
  /-- A code point other than a backslash. -/
  | point (c : CodePoint)
  /-- `\(…)`, by what stands in the brackets. -/
  | interpolation (inner : Text)
  /-- `\u{…}`, by what stands in the braces. -/
  | numbered (numeral : Text)
  /-- A backslash and one code point. -/
  | escape (c : CodePoint)
  deriving DecidableEq, Repr

namespace StringToken

/-- The token as it is written. -/
def written : StringToken → Text
  | point c => [c]
  | interpolation inner => '\\' :: '(' :: (inner ++ [CodePoint.scalar ')'])
  | numbered numeral => '\\' :: 'u' :: '\x7b' :: (numeral ++ [CodePoint.scalar '\x7d'])
  | escape c => ['\\', c]

/-- After a backslash, the text starts with a number in braces: some closing brace follows. -/
def OpensNumeral (text : Text) : Prop :=
  ∃ more, text = CodePoint.scalar 'u' :: CodePoint.scalar '\x7b' :: more ∧
    CodePoint.scalar '\x7d' ∈ more

/-- The text, which `after` follows, is split into the tokens. An interpolation reaches up to the
bracket that closes it, a number in braces up to the next closing brace. -/
inductive Splits (after : Text) : Text → List StringToken → Prop
  | nil : Splits after [] []
  | point {c : CodePoint} {more : Text} {tokens : List StringToken} :
    c ≠ '\\' → Splits after more tokens → Splits after (c :: more) (point c :: tokens)
  | interpolation {inner more : Text} {tokens : List StringToken} :
    Grammar.Balanced inner (CodePoint.scalar ')' :: (more ++ after)) → Splits after more tokens →
    Splits after
      (CodePoint.scalar '\\' :: CodePoint.scalar '(' :: (inner ++ CodePoint.scalar ')' :: more))
      (interpolation inner :: tokens)
  | numbered {numeral more : Text} {tokens : List StringToken} :
    CodePoint.scalar '\x7d' ∉ numeral → Splits after more tokens →
    Splits after
      (CodePoint.scalar '\\' :: CodePoint.scalar 'u' :: CodePoint.scalar '\x7b' ::
        (numeral ++ CodePoint.scalar '\x7d' :: more))
      (numbered numeral :: tokens)
  | escape {c : CodePoint} {more : Text} {tokens : List StringToken} :
    c ≠ '(' → ¬ OpensNumeral (c :: more) → Splits after more tokens →
    Splits after (CodePoint.scalar '\\' :: c :: more) (escape c :: tokens)

variable {after text : Text} {tokens : List StringToken}

/-- The tokens one after the other are the text: nothing is left out. -/
theorem Splits.flatMap_written (h : Splits after text tokens) : tokens.flatMap written = text := by
  induction h with
  | nil => rfl
  | point _ _ ih => rw [List.flatMap_cons, ih]; rfl
  | interpolation _ _ ih | numbered _ _ ih => rw [List.flatMap_cons, ih]; simp [written]
  | escape _ _ _ ih => rw [List.flatMap_cons, ih]; rfl

theorem Splits.of_cons {token : StringToken} (h : Splits after text (token :: tokens)) :
    ∃ more, text = token.written ++ more ∧ Splits after more tokens := by
  cases h with
  | point _ hmore => exact ⟨_, rfl, hmore⟩
  | interpolation _ hmore | numbered _ hmore => exact ⟨_, by simp [written], hmore⟩
  | escape _ _ hmore => exact ⟨_, rfl, hmore⟩

theorem written_ne_nil (token : StringToken) : token.written ≠ [] := by
  cases token <;> exact List.cons_ne_nil _ _

/-! ## There is at most one split

The first code point tells what kind of token it is, with the second and the third if it is a
backslash. What is to be shown is where the token ends. -/

/-- The bracket that closes one stands at one place only, as the scanner stops at the first. -/
theorem inner_unique {inner inner' more more' : Text}
    (hsame : inner ++ CodePoint.scalar ')' :: more = inner' ++ CodePoint.scalar ')' :: more')
    (h : Grammar.Balanced inner (CodePoint.scalar ')' :: (more ++ after)))
    (h' : Grammar.Balanced inner' (CodePoint.scalar ')' :: (more' ++ after))) :
    inner = inner' ∧ more = more' := by
  have hunit : ∀ {inner more : Text},
      Grammar.Balanced inner (CodePoint.scalar ')' :: (more ++ after)) →
      Text.unitEnd (CodePoint.scalar '(' :: ((inner ++ CodePoint.scalar ')' :: more) ++ after)) =
        .ok (inner.length + 1) := by
    intro inner more hinner
    rw [List.append_assoc]
    exact (@Grammar.unitEnd_opener_iff .round _ _).2 ⟨inner, _, rfl, hinner, rfl⟩
  have hend := hunit h
  rw [hsame, hunit h'] at hend
  have hlength : inner.length = inner'.length := by
    have hsucc := Except.ok.inj hend
    omega
  obtain ⟨hinner, hmore⟩ := List.append_inj hsame hlength
  exact ⟨hinner, (List.cons.inj hmore).2⟩

theorem takeWhile_numeral {numeral : Text} (h : CodePoint.scalar '\x7d' ∉ numeral) :
    numeral.takeWhile (fun d => d ≠ CodePoint.scalar '\x7d') = numeral := by
  rw [List.takeWhile_eq_self_iff]
  intro d hd
  exact decide_eq_true fun heq => h (heq ▸ hd)

theorem takeWhile_numeral_append {numeral : Text} (h : CodePoint.scalar '\x7d' ∉ numeral)
    (more : Text) :
    (numeral ++ CodePoint.scalar '\x7d' :: more).takeWhile (fun d => d ≠ CodePoint.scalar '\x7d') =
      numeral := by
  rw [List.takeWhile_append, takeWhile_numeral h, if_pos rfl,
    List.takeWhile_cons_of_neg (by simp), List.append_nil]

/-- The next closing brace stands at one place only. -/
theorem numeral_unique {numeral numeral' more more' : Text}
    (hsame : numeral ++ CodePoint.scalar '\x7d' :: more = numeral' ++
      CodePoint.scalar '\x7d' :: more')
    (h : CodePoint.scalar '\x7d' ∉ numeral) (h' : CodePoint.scalar '\x7d' ∉ numeral') :
    numeral = numeral' ∧ more = more' := by
  have hnumeral : numeral = numeral' := by
    rw [← takeWhile_numeral_append h more, hsame, takeWhile_numeral_append h' more']
  subst hnumeral
  exact ⟨rfl, (List.cons.inj (List.append_cancel_left hsame)).2⟩

theorem opensNumeral_numeral (numeral more : Text) :
    OpensNumeral (CodePoint.scalar 'u' :: CodePoint.scalar '\x7b' ::
      (numeral ++ CodePoint.scalar '\x7d' :: more)) :=
  ⟨_, rfl, List.mem_append_right _ List.mem_cons_self⟩

/-- **A text is split into tokens in one way at most**, by induction on one of the two splits. -/
theorem Splits.unique {tokens' : List StringToken} (h : Splits after text tokens)
    (h' : Splits after text tokens') : tokens = tokens' := by
  induction h generalizing tokens' with
  | nil =>
    cases h'
    rfl
  | point hc _ ih =>
    cases h' with
    | point _ hmore => rw [ih hmore]
    | interpolation | numbered | escape => exact absurd rfl hc
  | @interpolation inner more _ hinner _ ih =>
    -- The two splits must not be taken apart at once: the text behind the bracket is only known to
    -- be one.
    generalize hwhole : inner ++ CodePoint.scalar ')' :: more = whole at h'
    cases h' with
    | point hc _ => exact absurd rfl hc
    | interpolation hinner' hmore =>
      obtain ⟨rfl, rfl⟩ := inner_unique hwhole hinner hinner'
      rw [ih hmore]
    | escape hround _ _ => exact absurd rfl hround
  | @numbered numeral more _ hnumeral _ ih =>
    generalize hwhole : numeral ++ CodePoint.scalar '\x7d' :: more = whole at h'
    cases h' with
    | point hc _ => exact absurd rfl hc
    | numbered hnumeral' hmore =>
      obtain ⟨rfl, rfl⟩ := numeral_unique hwhole hnumeral hnumeral'
      rw [ih hmore]
    -- A backslash before a number in braces is no escape of a single code point.
    | escape _ hopens _ => exact absurd (hwhole ▸ opensNumeral_numeral numeral more) hopens
  | @escape c more _ hround hopens _ ih =>
    generalize hwhole : c :: more = whole at h'
    cases h' with
    | point hc _ => exact absurd rfl hc
    | interpolation => exact absurd (List.cons.inj hwhole).1 hround
    | numbered => exact absurd (hwhole ▸ opensNumeral_numeral _ _) hopens
    | escape _ _ hmore =>
      cases hwhole
      rw [ih hmore]

end StringToken

/-! ## What the scanner takes for a literal has a split

Settled states first, then the steps from one settled state to another that a token takes, and then
the induction. -/

namespace Opening

variable {entered next outer : List Opening} {offset last : Nat} {c : CodePoint} {rest text : Text}

/-- No backslash waits for the code point that it escapes. Strings and brackets may be entered to
any depth. -/
def IsSettled (entered : List Opening) : Prop := ∀ start, escape start ∉ entered

theorem IsSettled.tail (h : IsSettled entered) : IsSettled entered.tail :=
  fun start hmem => h start (List.mem_of_mem_tail hmem)

/-- Only a backslash in a string literal is left waiting, if none waits below. So there is at most
one at any time, and it is the innermost. -/
theorem isSettled_or_escape_of_advance (htail : IsSettled entered.tail)
    (h : advance entered offset c rest = .ok next) :
    IsSettled next ∨ (c = '\\' ∧ ∃ start outer, entered = string start :: outer ∧
      IsSettled outer ∧ next = escape start :: outer) := by
  -- Outside string literals no backslash comes to wait, whatever is opened.
  have houtside : ∀ {below new : List Opening}, IsSettled below →
      advance [] offset c rest = .ok new → IsSettled (new ++ below) := by
    intro below new hbelow hnew start hmem
    rcases advance_nil_cases hnew with rfl | ⟨_, rfl⟩ | ⟨_, _, rfl⟩
    · exact hbelow start hmem
    · exact hbelow start (by simpa using hmem)
    · exact hbelow start (by simpa using hmem)
  cases entered with
  | nil =>
    left
    rw [← List.append_nil next]
    exact houtside htail h
  | cons top outer =>
    replace htail : IsSettled outer := htail
    cases top with
    | bracket kind start =>
      left
      have hbracket : IsSettled (bracket kind start :: outer) := by simpa [IsSettled] using htail
      rcases advanceOutside_cases h with ⟨new, hnew, rfl⟩ | ⟨_, _, hentered, _⟩
      · exact houtside hbracket hnew
      · cases hentered
        exact htail
    | string start =>
      rw [advance] at h
      split at h
      · rename_i hc
        cases h
        exact .inr ⟨hc, start, outer, rfl, htail, rfl⟩
      · left
        split at h
        · cases h
          exact htail
        · split at h
          · cases h
          · cases h
            simpa [IsSettled] using htail
    | escape start =>
      left
      rw [advance] at h
      split at h
      · cases h
        simpa [IsSettled] using htail
      · cases h
        simpa [IsSettled] using htail

theorem isSettled_tail_of_advance (htail : IsSettled entered.tail)
    (h : advance entered offset c rest = .ok next) : IsSettled next.tail := by
  rcases isSettled_or_escape_of_advance htail h with hnext | ⟨_, _, _, _, houter, rfl⟩
  · exact hnext.tail
  · exact houter

/-- A unit that goes on after a code point goes on with what is entered then. -/
theorem exists_advance_of_unitEndFrom (h : unitEndFrom entered offset (c :: rest) = .ok last)
    (hlast : offset < last) :
    ∃ next, advance entered offset c rest = .ok next ∧ unitEndFrom next (offset + 1) rest =
      .ok last := by
  rw [unitEndFrom] at h
  obtain ⟨next, hstep, hnext⟩ := Reading.bind_eq_ok.1 h
  split at hnext
  · cases hnext
    exact absurd hlast (Nat.lt_irrefl _)
  · exact ⟨next, hstep, hnext⟩

/-- **Behind a code point that is no backslash nothing waits**, however the scanner got there. -/
theorem exists_isSettled (text : Text) (htail : IsSettled entered.tail) (hc : c ≠ '\\')
    (h : unitEndFrom entered offset (text ++ c :: rest) = .ok last)
    (hlast : offset + text.length < last) :
    ∃ mid, IsSettled mid ∧ unitEndFrom mid (offset + text.length + 1) rest = .ok last := by
  induction text generalizing entered offset with
  | nil =>
    obtain ⟨next, hstep, hnext⟩ := exists_advance_of_unitEndFrom h hlast
    refine ⟨next, (isSettled_or_escape_of_advance htail hstep).resolve_right ?_, hnext⟩
    exact fun hescape => hc hescape.1
  | cons d text ih =>
    rw [List.length_cons] at hlast
    obtain ⟨next, hstep, hnext⟩ := exists_advance_of_unitEndFrom h (by omega)
    obtain ⟨mid, hmid, hrest⟩ := ih (isSettled_tail_of_advance htail hstep) hnext (by omega)
    refine ⟨mid, hmid, ?_⟩
    rwa [List.length_cons, show offset + (text.length + 1) + 1 =
      offset + 1 + text.length + 1 by omega]

/-- A backslash waits in a string literal, and elsewhere it is nothing special. -/
theorem advance_backslash (h : IsSettled entered)
    (hstep : advance entered offset '\\' rest = .ok next) :
    (∃ start outer, entered = string start :: outer ∧ next = escape start :: outer) ∨
      (IsOutside entered ∧ next = entered) := by
  have hplain : isPlain (CodePoint.scalar '\\') := by decide
  cases entered with
  | nil =>
    rw [advance_of_isPlain isOutside_nil hplain] at hstep
    cases hstep
    exact .inr ⟨isOutside_nil, rfl⟩
  | cons top outer =>
    cases top with
    | bracket kind start =>
      rw [advance_of_isPlain isOutside_bracket hplain] at hstep
      cases hstep
      exact .inr ⟨isOutside_bracket, rfl⟩
    | string start =>
      cases hstep
      exact .inl ⟨start, outer, rfl, rfl⟩
    | escape start => exact absurd List.mem_cons_self (h start)

/-- **Behind a backslash and a code point nothing waits.** -/
theorem exists_isSettled_of_backslash (hsettled : IsSettled entered)
    (h : unitEndFrom entered offset (CodePoint.scalar '\\' :: c :: rest) = .ok last)
    (hlast : offset + 1 < last) :
    ∃ mid, IsSettled mid ∧ unitEndFrom mid (offset + 2) rest = .ok last := by
  obtain ⟨next, hstep, hnext⟩ := exists_advance_of_unitEndFrom h (by omega)
  have hnexttail := isSettled_tail_of_advance hsettled.tail hstep
  obtain ⟨mid, hmidstep, hmid⟩ := exists_advance_of_unitEndFrom hnext hlast
  refine ⟨mid, (isSettled_or_escape_of_advance hnexttail hmidstep).resolve_right ?_, hmid⟩
  -- After the backslash the scanner is not in a string literal, unless that backslash waits.
  rintro ⟨_, _, _, hstring, _⟩
  rcases advance_backslash hsettled hstep with ⟨_, _, _, rfl⟩ | ⟨houtside, rfl⟩
  · cases hstring
  · rw [hstring] at houtside
    exact houtside

/-- **A round bracket behind a backslash is closed**, wherever the scanner is. -/
theorem exists_inner_of_backslash (hsettled : IsSettled entered)
    (h : unitEndFrom entered offset (CodePoint.scalar '\\' :: CodePoint.scalar '(' :: rest) =
      .ok last)
    (hlast : offset + 1 < last) :
    ∃ inner later, rest = inner ++ CodePoint.scalar ')' :: later ∧
      Grammar.Balanced inner (CodePoint.scalar ')' :: later) ∧
      offset + 2 + inner.length ≤ last := by
  obtain ⟨next, hstep, hnext⟩ := exists_advance_of_unitEndFrom h (by omega)
  obtain ⟨mid, hmidstep, hmid⟩ := exists_advance_of_unitEndFrom hnext hlast
  obtain ⟨outer, rfl⟩ : ∃ outer, mid = [] ++ bracket .round (offset + 1) :: outer := by
    rcases advance_backslash hsettled hstep with ⟨start, outer, _, rfl⟩ | ⟨houtside, rfl⟩
    · cases hmidstep
      exact ⟨string start :: outer, rfl⟩
    · rw [advance_of_isOutside houtside] at hmidstep
      cases hmidstep
      exact ⟨next, rfl⟩
  obtain ⟨inner, later, hrest, hpasses, hend⟩ := exists_closer hmid
  refine ⟨inner, later, hrest, Grammar.passes_iff.1 hpasses, ?_⟩
  rcases hend with ⟨_, rfl⟩ | ⟨_, hlater⟩
  · omega
  · have hbounds := (bounds_of_unitEndFrom hlater).1
    omega

/-- Nothing ends at a quote behind a backslash. -/
theorem ne_of_unitEndFrom_backslash_quote (hsettled : IsSettled entered)
    (h : unitEndFrom entered offset (CodePoint.scalar '\\' :: CodePoint.scalar '"' :: rest) =
      .ok last) : offset + 1 ≠ last := by
  rintro rfl
  obtain ⟨next, hstep, hnext⟩ := exists_advance_of_unitEndFrom h (Nat.lt_succ_self offset)
  rw [unitEndFrom] at hnext
  obtain ⟨mid, hmidstep, hmid⟩ := Reading.bind_eq_ok.1 hnext
  have hne : mid ≠ [] := by
    rcases advance_backslash hsettled hstep with ⟨start, outer, _, rfl⟩ | ⟨houtside, rfl⟩
    · cases hmidstep
      exact List.cons_ne_nil _ _
    · rw [advance_of_isOutside houtside, advanceOutside, if_pos rfl] at hmidstep
      split at hmidstep
      · cases hmidstep
      · cases hmidstep
        exact List.cons_ne_nil _ _
  rw [if_neg (by simpa using hne)] at hmid
  have hbounds := (bounds_of_unitEndFrom hmid).1
  omega

end Opening

namespace StringToken

open Opening (IsSettled unitEndFrom)

/-- What is found in front of a text and reaches up to a bracket is found in what precedes its
quote. -/
theorem exists_of_append_eq {inner later more after : Text}
    (h : more ++ CodePoint.scalar '"' :: after = inner ++ CodePoint.scalar ')' :: later)
    (hlength : inner.length ≤ more.length) :
    ∃ tail, more = inner ++ CodePoint.scalar ')' :: tail ∧
      later = tail ++ CodePoint.scalar '"' :: after := by
  obtain ⟨tail, rfl⟩ : inner <+: more :=
    List.prefix_of_prefix_length_le ⟨_, h.symm⟩ (List.prefix_append more _) hlength
  rw [List.append_assoc] at h
  have htail := List.append_cancel_left h
  cases tail with
  | nil => cases htail
  | cons c tail =>
    obtain ⟨rfl, rfl⟩ := List.cons.inj htail
    exact ⟨tail, rfl, rfl⟩

/-- Behind a code point that is no backslash, the scanner is settled and gets to the same quote. -/
theorem exists_isSettled_of_append {entered : List Opening} {offset : Nat} {more after : Text}
    {c : CodePoint} (before : Text) (hsettled : IsSettled entered) (hc : c ≠ '\\')
    (h : unitEndFrom entered offset (before ++ c :: more ++ CodePoint.scalar '"' :: after) =
      .ok (offset + (before ++ c :: more).length)) :
    ∃ mid, IsSettled mid ∧ unitEndFrom mid (offset + before.length + 1)
      (more ++ CodePoint.scalar '"' :: after) = .ok (offset + before.length + 1 + more.length) := by
  rw [List.append_assoc, List.length_append, List.length_cons] at h
  obtain ⟨mid, hmid, hmore⟩ := Opening.exists_isSettled before hsettled.tail hc h (by omega)
  exact ⟨mid, hmid, hmore.trans (congrArg Except.ok (by omega))⟩

/-- **The text before the quote at which the scanner ends is split into tokens.** -/
theorem exists_splits {entered : List Opening} {offset : Nat} {inside after : Text}
    (hsettled : IsSettled entered)
    (h : unitEndFrom entered offset (inside ++ CodePoint.scalar '"' :: after) =
      .ok (offset + inside.length)) :
    ∃ tokens, Splits (CodePoint.scalar '"' :: after) inside tokens := by
  -- Behind each token the scanner is settled again, and so the rest is split by induction.
  induction hlength : inside.length using Nat.strongRecOn generalizing inside entered offset with
  | ind n ih =>
    subst hlength
    cases inside with
    | nil => exact ⟨[], .nil⟩
    | cons c more =>
      by_cases hc : c = '\\'
      · subst hc
        cases more with
        | nil => exact absurd rfl (Opening.ne_of_unitEndFrom_backslash_quote hsettled h)
        | cons d more =>
          have hlast : offset + 1 < offset + (CodePoint.scalar '\\' :: d :: more).length := by
            simp only [List.length_cons]
            omega
          by_cases hround : d = '('
          · subst hround
            obtain ⟨inner, later, hrest, hinner, hlater⟩ :=
              Opening.exists_inner_of_backslash hsettled h hlast
            rw [List.length_cons, List.length_cons] at hlater
            obtain ⟨tail, rfl, rfl⟩ := exists_of_append_eq hrest (by omega)
            obtain ⟨mid, hmid, hmore⟩ := exists_isSettled_of_append
              (CodePoint.scalar '\\' :: CodePoint.scalar '(' :: inner) hsettled (by decide) h
            obtain ⟨tokens, htokens⟩ := ih tail.length (by simp; omega) hmid hmore rfl
            exact ⟨_, .interpolation hinner htokens⟩
          · by_cases hopens : OpensNumeral (d :: more)
            · obtain ⟨braced, hbraced, hbrace⟩ := hopens
              obtain ⟨rfl, rfl⟩ := List.cons.inj hbraced
              obtain ⟨numeral, tail, rfl, hnumeral⟩ := List.eq_append_cons_of_mem hbrace
              obtain ⟨mid, hmid, hmore⟩ := exists_isSettled_of_append
                (CodePoint.scalar '\\' :: CodePoint.scalar 'u' ::
                  CodePoint.scalar '\x7b' :: numeral) hsettled (by decide) h
              obtain ⟨tokens, htokens⟩ := ih tail.length (by simp; omega) hmid hmore rfl
              exact ⟨_, .numbered hnumeral htokens⟩
            · obtain ⟨mid, hmid, hmore⟩ :=
                Opening.exists_isSettled_of_backslash hsettled h hlast
              rw [List.length_cons, List.length_cons,
                show offset + (more.length + 1 + 1) = offset + 2 + more.length by omega] at hmore
              obtain ⟨tokens, htokens⟩ :=
                ih more.length (by simp only [List.length_cons]; omega) hmid hmore rfl
              exact ⟨_, .escape hround hopens htokens⟩
      · obtain ⟨mid, hmid, hmore⟩ := exists_isSettled_of_append [] hsettled hc h
        obtain ⟨tokens, htokens⟩ := ih more.length (by simp) hmid hmore rfl
        exact ⟨_, .point hc htokens⟩

end StringToken

end MemberSynthesis
