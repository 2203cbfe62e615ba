import MemberSynthesis.Proofs.Source.Occurrence
import MemberSynthesis.Proofs.Source.Skipping

/-!
# Unicode escapes

The number of a unicode escape is written in a liberal notation (`HexNumeral.Spells`), and **the
escape is accepted just when the notation gives it a number up to `0x10FFFF`**, a surrogate too. So
signs, blanks, the mark `0x`, underscores, digits of any script and more than eight digits pass, and
a literal can stand for a text that has no encoding, although it was written in one that has. Then
one of its escapes spells the number of a surrogate, and there is no other way (`unicodeEscapes`).

The statement has two sides, and they meet in the tokens of a literal. On the one side is the reader
of one literal: what it makes of the numeral in a pair of braces, as a fault at its backslash or as
one code point in the value. On the other side is a whole source, and a value deep in its arguments.
Where the value comes from is the subject of the module on string values; here it is a literal, the
literal is its tokens, and the value is put together from what the tokens stand for. A surrogate in
it must be in what one of them stands for, and a token that is written without surrogates stands for
one only by its number.

The plain numerals, one to eight digits of ASCII that make a scalar value, are told apart from the
others by an `iff` as well. That fixes what a stricter reader would accept, and what it would have
to reject.
-/

set_option autoImplicit false

namespace MemberSynthesis

/-! ## Texts that can be encoded -/

/-- The text can be written in UTF-8, as every `String` is. -/
def Text.IsEncodable (text : Text) : Prop := ∃ s : String, Text.ofString s = text

/-- Surrogates are the only obstacle. -/
theorem Text.isEncodable_iff {text : Text} :
    text.IsEncodable ↔ ∀ n, CodePoint.surrogate n ∉ text := by
  constructor
  · rintro ⟨s, rfl⟩ n hmem
    obtain ⟨c, _, hc⟩ := List.mem_map.1 hmem
    cases hc
  · intro h
    have hchars : ∃ chars : List Char, chars.map CodePoint.scalar = text := by
      induction text with
      | nil => exact ⟨[], rfl⟩
      | cons c more ih =>
        obtain ⟨chars, rfl⟩ := ih fun n hn => h n (List.mem_cons_of_mem c hn)
        cases c with
        | scalar c => exact ⟨c :: chars, rfl⟩
        | surrogate n => exact absurd List.mem_cons_self (h n)
    obtain ⟨chars, rfl⟩ := hchars
    exact ⟨String.ofList chars, by rw [ofString, String.toList_ofList]⟩

theorem Text.isEncodable_append_iff {text more : Text} :
    IsEncodable (text ++ more) ↔ text.IsEncodable ∧ more.IsEncodable := by
  simp only [isEncodable_iff, List.mem_append, not_or, forall_and]

theorem Text.IsEncodable.of_isInfix {text piece : Text} (h : text.IsEncodable)
    (hpiece : piece <:+: text) :
    piece.IsEncodable := by
  rw [isEncodable_iff] at h ⊢
  exact fun n hn => h n (hpiece.subset hn)

/-- Between the quotes of a string literal the text is split into tokens, up to the closing
quote. -/
theorem Text.IsQuoted.exists_splits {literal inside : Text} (h : literal.IsQuoted inside) :
    literal = CodePoint.scalar '"' :: (inside ++ [CodePoint.scalar '"']) ∧
      ∃ tokens, StringToken.Splits ['"'] inside tokens := by
  obtain ⟨hhead, hinside⟩ := h
  obtain ⟨last, hunit, hinner⟩ := Reading.bind_eq_ok.1 hinside
  by_cases hwhole : last + 1 = literal.length
  · rw [if_pos hwhole] at hinner
    cases hinner
    have hskip : literal.skipString 0 = .ok literal.length := by
      rw [skipString_eq_literalEnd (by rw [← List.head?_eq_getElem?, hhead]), literalEnd,
        List.drop_zero, hunit, ← hwhole, Nat.add_comm last]
      exact congrArg Except.ok (by omega)
    obtain ⟨inside, after, hdrop, hlength, hend⟩ := exists_of_skipString hskip
    have hafter : after = [] := by
      have hsame := congrArg List.length hdrop
      rw [List.length_drop, List.length_append, List.length_cons] at hsame
      exact List.length_eq_zero_iff.1 (by omega)
    subst hafter
    have hinside : (literal.drop 1).dropLast = inside := by
      rw [hdrop, List.dropLast_concat]
    rw [hinside]
    refine ⟨?_, StringToken.exists_splits (by simp [Opening.IsSettled]) hend⟩
    obtain ⟨rest, rfl⟩ := List.head?_eq_some_iff.1 hhead
    exact congrArg (List.cons _) hdrop
  · rw [if_neg hwhole] at hinner
    cases hinner

namespace StringToken

variable {token : StringToken} {tokens : List StringToken} {value : Text} {values : List Text}

/-! ## What a token contributes -/

/-- A number in braces stands for one code point, the one that it is the number of. -/
theorem standsFor_numbered_iff {numeral : Text} :
    StandsFor (numbered numeral) value ↔
      ∃ c : CodePoint, HexNumeral.Spells numeral c.toNat ∧ value = [c] := by
  simp only [← HexNumeral.value?_eq_some_iff]
  constructor
  · rintro ⟨⟩
    exact ⟨_, ‹_›, rfl⟩
  · rintro ⟨c, hc, rfl⟩
    exact .numbered hc

/-- The token is the number of a surrogate in braces, in any notation that is accepted. -/
def NamesSurrogate (token : StringToken) : Prop :=
  ∃ numeral n, token = numbered numeral ∧ HexNumeral.Spells numeral (CodePoint.surrogate n).toNat

/-- A token that is written without surrogates stands for one only by its number: what it stands for
otherwise is its own text, or a scalar value that its escape is short for. -/
theorem StandsFor.isEncodable_iff (h : StandsFor token value)
    (hwritten : token.written.IsEncodable) :
    value.IsEncodable ↔ ¬ token.NamesSurrogate := by
  cases h with
  | point | interpolation => exact iff_of_true hwritten (by rintro ⟨_, _, ⟨⟩, _⟩)
  | @numbered numeral c hc =>
    rw [Text.isEncodable_iff]
    constructor
    · rintro hvalue ⟨_, n, ⟨⟩, hn⟩
      rw [HexNumeral.eq_of_spells (HexNumeral.value?_eq_some_iff.1 hc) hn] at hvalue
      exact hvalue n List.mem_cons_self
    · rintro hnot n hn
      obtain rfl := List.mem_singleton.1 hn
      exact hnot ⟨numeral, n, rfl, HexNumeral.value?_eq_some_iff.1 hc⟩
  | escape hd =>
    refine iff_of_true ?_ (by rintro ⟨_, _, ⟨⟩, _⟩)
    have hscalar : ∀ entry ∈ simpleEscapes, ∃ d : Char, entry.2 = .scalar d := by
      simp [simpleEscapes]
    obtain ⟨d, hd⟩ := hscalar _ hd
    rw [Text.isEncodable_iff]
    intro n hn
    have hsame : CodePoint.surrogate n = .scalar d := (List.mem_singleton.1 hn).trans hd
    cases hsame

/-- A value can be encoded just when each part of it can. -/
theorem isEncodable_flatten_iff (h : List.Forall₂ StandsFor tokens values)
    (hwritten : Text.IsEncodable (tokens.flatMap written)) :
    Text.IsEncodable values.flatten ↔ ∀ token ∈ tokens, ¬ token.NamesSurrogate := by
  induction h with
  | nil => exact iff_of_true ⟨"", rfl⟩ fun _ hmem => absurd hmem List.not_mem_nil
  | cons hvalue _ ih =>
    rw [List.flatMap_cons, Text.isEncodable_append_iff] at hwritten
    rw [List.flatten_cons, Text.isEncodable_append_iff, List.forall_mem_cons,
      hvalue.isEncodable_iff hwritten.1, ih hwritten.2]

end StringToken

namespace StringContent

open StringToken (Splits StandsFor NamesSurrogate)
open HexNumeral (Spells IsPlain asciiDigits)

variable {after inside : Text} {before later : List StringToken} {numeral : Text}

/-! ## Numerals that are accepted -/

/-- A number in braces that is none of a code point is blamed, at its backslash, if all before it is
accepted. -/
theorem read_of_not_spells (h : Splits after inside (before ++ .numbered numeral :: later))
    (hbefore : ∀ other ∈ before, other.IsAccepted)
    (hnot : ∀ c : CodePoint, ¬ Spells numeral c.toNat) :
    read inside =
      .error ⟨.invalidUnicodeEscape, (before.flatMap StringToken.written).length⟩ := by
  have htoken : ¬ (StringToken.numbered numeral).IsAccepted := by
    rw [StringToken.isAccepted_iff]
    rintro ⟨value, hvalue⟩
    obtain ⟨c, hc, _⟩ := StringToken.standsFor_numbered_iff.1 hvalue
    exact hnot c hc
  obtain ⟨cause, hcause, hread⟩ := read_of_blamed h hbefore htoken
  rw [hread, show cause = .invalidUnicodeEscape from hcause]

/-- What is blamed stands behind all the tokens that are accepted. So an escape that is accepted is
not to blame when a later one is. -/
theorem length_le_of_read_eq_error {tokens : List StringToken} {fault : ReadFault}
    (h : Splits after inside (tokens ++ later)) (haccepted : ∀ token ∈ tokens, token.IsAccepted)
    (hread : read inside = .error fault) :
    (tokens.flatMap StringToken.written).length ≤ fault.offset := by
  rcases StringToken.forall_or_exists_first later with
    hall | ⟨between, token, rest, rfl, hbetween, htoken⟩
  · have hevery : ∀ token ∈ tokens ++ later, token.IsAccepted :=
      List.forall_mem_append.2 ⟨haccepted, hall⟩
    obtain ⟨values, hvalues⟩ := StringToken.forall_isAccepted_iff.1 hevery
    rw [read_of_standsFor h hvalues] at hread
    cases hread
  · rw [← List.append_assoc] at h
    have hevery : ∀ token ∈ tokens ++ between, token.IsAccepted :=
      List.forall_mem_append.2 ⟨haccepted, hbetween⟩
    obtain ⟨cause, _, herror⟩ := read_of_blamed h hevery htoken
    rw [hread] at herror
    cases herror
    rw [List.flatMap_append, List.length_append]
    exact Nat.le_add_right _ _

/-- A number in braces contributes the code point that it is the number of, between what the tokens
before and behind it do. -/
theorem exists_of_read_numbered {content : StringContent} {c : CodePoint}
    (h : Splits after inside (before ++ .numbered numeral :: later))
    (hspells : Spells numeral c.toNat) (hread : read inside = .ok content) :
    ∃ front back, List.Forall₂ StandsFor before front ∧ List.Forall₂ StandsFor later back ∧
      content.value = front.flatten ++ c :: back.flatten := by
  obtain ⟨values, hvalues, rfl⟩ := (read_eq_ok_iff h).1 hread
  obtain ⟨front, value, back, rfl, hfront, hvalue, hback⟩ :=
    Outcome.exists_of_forall₂_append hvalues
  refine ⟨front, back, hfront, hback, ?_⟩
  obtain ⟨d, hd, rfl⟩ := StringToken.standsFor_numbered_iff.1 hvalue
  rw [HexNumeral.eq_of_spells hspells hd, List.flatten_append, List.flatten_cons]
  rfl

/-- **Which unicode escapes of a source are accepted, and what comes of surrogates.** In a string
literal of the source, a numeral in braces is accepted just when it spells the number of a code
point, surrogates included, and contributes this code point; any other is blamed at its backslash.
The plain numerals among those, at most eight digits of ASCII, are the ones of scalar values. A
string value read from a source without surrogates can be written in UTF-8 just when no escape of
its literal names a surrogate. -/
theorem unicodeEscapes (text : Text) :
    (∀ literal inside : Text, literal <:+: text → literal.IsQuoted inside →
      ∃ tokens, (∀ other, Splits ['"'] inside other ↔ other = tokens) ∧
        ∀ before numeral later, tokens = before ++ .numbered numeral :: later →
          (∀ other ∈ before, other.IsAccepted) →
          ((∀ c : CodePoint, ¬ Spells numeral c.toNat) → read inside =
            .error ⟨.invalidUnicodeEscape, (before.flatMap StringToken.written).length⟩) ∧
          (∀ c : CodePoint, Spells numeral c.toNat →
            (∀ fault, read inside = .error fault →
              ((before ++ [.numbered numeral]).flatMap StringToken.written).length ≤ fault.offset) ∧
            ∀ content, read inside = .ok content →
              ∃ front back, List.Forall₂ StandsFor before front ∧
                List.Forall₂ StandsFor later back ∧
                content.value = front.flatten ++ c :: back.flatten) ∧
          ∀ c : Char, IsPlain numeral c ↔ numeral.length ≤ 8 ∧
            (∀ digit ∈ numeral, digit ∈ asciiDigits.map Prod.fst) ∧ Spells numeral c.toNat) ∧
    ∀ (name : Text) (snippet : Snippet) (argument : Argument) (value : Text),
      Snippet.read name text = .ok snippet → argument ∈ snippet.directive.arguments →
      argument.expression.HasString value → text.IsEncodable →
      ∃ (literal inside : Text) (tokens : List StringToken) (interpolated : Bool),
        literal <:+: text ∧
        literal.IsQuoted inside ∧ Splits ['"'] inside tokens ∧
        read inside = .ok ⟨value, interpolated⟩ ∧
        (value.IsEncodable ↔ ∀ token ∈ tokens, ¬ token.NamesSurrogate) := by
  refine ⟨?_, ?_⟩
  · intro literal inside _ hliteral
    obtain ⟨_, tokens, htokens⟩ := hliteral.exists_splits
    refine ⟨tokens, fun other => ⟨fun hother => hother.unique htokens,
      fun hother => hother ▸ htokens⟩, ?_⟩
    rintro before numeral later rfl hbefore
    refine ⟨read_of_not_spells htokens hbefore, ?_, fun c => HexNumeral.isPlain_iff⟩
    intro c hspells
    refine ⟨fun fault hread => ?_, fun content hread => exists_of_read_numbered htokens
      hspells hread⟩
    -- An accepted numeral is one more accepted token, and what is blamed stands behind it.
    have hnumber : (StringToken.numbered numeral).IsAccepted :=
      StringToken.isAccepted_iff.2 ⟨[c], StringToken.standsFor_numbered_iff.2 ⟨c, hspells, rfl⟩⟩
    have haccepted : ∀ token ∈ before ++ [.numbered numeral], token.IsAccepted :=
      List.forall_mem_append.2 ⟨hbefore, List.forall_mem_singleton.2 hnumber⟩
    rw [List.append_cons] at htokens
    exact length_le_of_read_eq_error htokens haccepted hread
  · intro name snippet argument value hread hargument hvalue htext
    obtain ⟨literal, inside, content, hwithin, hliteral, hcontent, rfl⟩ :=
      Snippet.isReadFrom_of_read hread hargument hvalue
    -- The value is that of a literal, the literal its tokens, and the source gives it no surrogate.
    obtain ⟨hquotes, tokens, htokens⟩ := hliteral.exists_splits
    refine ⟨literal, inside, tokens, content.interpolated, hwithin, hliteral, htokens, hcontent, ?_⟩
    obtain ⟨values, hvalues, rfl⟩ := (read_eq_ok_iff htokens).1 hcontent
    apply StringToken.isEncodable_flatten_iff hvalues
    rw [htokens.flatMap_written]
    apply htext.of_isInfix (List.IsInfix.trans ?_ hwithin)
    rw [hquotes]
    exact ⟨[CodePoint.scalar '"'], [CodePoint.scalar '"'], rfl⟩

/-- A plain numeral beyond the first plane. -/
theorem unicodeEscapes_smiley :
    ∃ text literal inside : Text, text = "@A(\"\\u\x7b1F600\x7d\") class C" ∧
      literal = "\"\\u\x7b1F600\x7d\"" ∧ literal <:+: text ∧ literal.IsQuoted inside ∧
      Spells "1F600" (CodePoint.scalar '😀').toNat ∧
      (∀ content, read inside = .ok content → content.value = [CodePoint.scalar '😀']) ∧
      text.IsEncodable ∧
      Snippet.read "A" text = .ok ⟨⟨"A", [⟨none, .string [CodePoint.scalar '😀'] false⟩]⟩,
        ⟨.classType, "C"⟩⟩ ∧
      ∃ (literal inside : Text) (tokens : List StringToken) (interpolated : Bool),
        literal <:+: text ∧
        literal.IsQuoted inside ∧ Splits ['"'] inside tokens ∧
        read inside = .ok ⟨[CodePoint.scalar '😀'], interpolated⟩ ∧
        (Text.IsEncodable [CodePoint.scalar '😀'] ↔ ∀ token ∈ tokens, ¬ token.NamesSurrogate) := by
  have hwithin : ("\"\\u\x7b1F600\x7d\"" : Text) <:+: ("@A(\"\\u\x7b1F600\x7d\") class C" : Text) :=
    ⟨"@A(", ") class C", rfl⟩
  have hquoted : Text.IsQuoted ("\"\\u\x7b1F600\x7d\"" : Text) ("\\u\x7b1F600\x7d" : Text) :=
    ⟨by decide +kernel, by decide +kernel⟩
  have hspells : Spells "1F600" (CodePoint.scalar '😀').toNat :=
    HexNumeral.value?_eq_some_iff.1 (by decide +kernel)
  have hread : Snippet.read "A" ("@A(\"\\u\x7b1F600\x7d\") class C" : Text) =
      .ok ⟨⟨"A", [⟨none, .string [CodePoint.scalar '😀'] false⟩]⟩,
        ⟨.classType, "C"⟩⟩ := by decide +kernel
  refine ⟨_, _, _, rfl, rfl, hwithin, hquoted, hspells, ?_, ⟨_, rfl⟩, hread, ?_⟩
  · intro content hcontent
    obtain ⟨tokens, hsplits, hnumbers⟩ := (unicodeEscapes _).1 _ _ hwithin hquoted
    have hsplit : Splits ['"'] ("\\u\x7b1F600\x7d" : Text) [.numbered "1F600"] :=
      @Splits.numbered _ "1F600" [] [] (by decide) .nil
    obtain ⟨_, hspelt, _⟩ := hnumbers [] "1F600" [] ((hsplits _).1 hsplit).symm (by simp)
    obtain ⟨front, back, hfront, hback, hvalue⟩ := (hspelt _ hspells).2 content hcontent
    cases hfront
    cases hback
    exact hvalue
  · exact (unicodeEscapes _).2 _ _ _ _ hread List.mem_cons_self .string ⟨_, rfl⟩

/-- The escapes `D800` and `+41` are accepted, and the first one puts a surrogate into a value. -/
theorem read_surrogate :
    ∃ text value : Text, text = "@UsefulClass(\"\\u\x7bD800\x7d\\u\x7b+41\x7d\") class C \x7b\x7d" ∧
      value = [CodePoint.surrogate 0, CodePoint.scalar 'A'] ∧ text.IsEncodable ∧
      ¬ value.IsEncodable ∧
      Snippet.read "UsefulClass" text =
        .ok ⟨⟨"UsefulClass", [⟨none, .string value false⟩]⟩, ⟨.classType, "C"⟩⟩ ∧
      (∀ c, ¬ IsPlain "D800" c) ∧ ∀ c, ¬ IsPlain "+41" c := by
  refine ⟨_, _, rfl, rfl, ⟨_, rfl⟩, ?_, by decide +kernel, ?_, ?_⟩
  · rw [Text.isEncodable_iff]
    exact fun h => h 0 List.mem_cons_self
  · intro c hc
    have hvalue := HexNumeral.value?_eq_some_iff.2 (HexNumeral.isPlain_iff.1 hc).2.2
    rw [show HexNumeral.value? "D800" = some 0xD800 by decide +kernel] at hvalue
    have hvalid : c.toNat.isValidChar := c.valid
    rw [← Int.ofNat.inj (Option.some.inj hvalue)] at hvalid
    exact absurd hvalid (by decide)
  · intro c hc
    exact absurd ((HexNumeral.isPlain_iff.1 hc).2.1 '+' (by decide)) (by decide)

end StringContent

end MemberSynthesis
