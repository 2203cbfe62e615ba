import MemberSynthesis.Proofs.Source.Decoding

/-!
# Skipping and decoding a string literal agree

A string literal is gone over twice: it is first skipped, to find where it ends (`Text.skipString`),
and then decoded up to there (`Text.decode`). The two go through it at different steps, and decoding
does not look out for the closing quote. **Yet decoding never passes it**: what was skipped is split
into tokens in just one way, and decoding takes one token after the other (`decode_of_skipString`).

Three modules meet here. That there is one split, and no other, is a fact about what the scanner
takes for a literal. That decoding takes the tokens of a split is one about the decoder. And what
remains is that the two mean the same stretch of the text, which is a matter of offsets: the scanner
counts them from the start of the text, and the literal from its quote
(`Opening.unitEndFrom_singleton_eq`).

Neither skipping nor decoding looks at the code point at `start`. It is taken for the quote, so that
the agreement holds from every offset that is skipped, a quote or not.
-/

set_option autoImplicit false

namespace MemberSynthesis

namespace Opening

variable {top : Opening} {start : Nat} {rest : Text}

/-- No fault is laid on what stands before the only thing that is entered. -/
theorem le_of_unitEndFrom_singleton {fault : ReadFault} (htop : top.blame.offset = start)
    (h : unitEndFrom [top] (start + 1) rest = .error fault) : start ≤ fault.offset := by
  rcases placed_or_blamed (List.cons_ne_nil _ _) h with ⟨before, _, _, hoffset, _⟩ |
    ⟨inner, opening, outer, hentered, hblame, _⟩
  · omega
  · rcases List.append_eq_singleton_iff.1 hentered.symm with ⟨_, hopening⟩ | ⟨_, hnil⟩
    · cases hopening
      exact Nat.le_of_eq (htop.symm.trans (congrArg ReadFault.offset hblame))
    · cases hnil

/-- A scan from behind an opening is a scan that counts offsets from there. -/
theorem unitEndFrom_singleton_eq (htop : top.blame.offset = start) (rest : Text) :
    unitEndFrom [top] (start + 1) rest =
      (Reading.moved start (unitEndFrom [top.earlier start] 1 rest)).map (start + ·) := by
  have hmove := @unitEndFrom_earlier [top] 1 rest start
  rw [Nat.add_comm 1 start, List.map_singleton] at hmove
  rw [hmove]
  cases hlast : unitEndFrom [top] (start + 1) rest with
  | ok last =>
    have hbounds := (bounds_of_unitEndFrom hlast).1
    show Except.ok last = Except.ok (start + (last - start))
    rw [Nat.add_sub_cancel' (by omega)]
  | error fault =>
    show Except.error fault = Except.error { fault with offset := start + (fault.offset - start) }
    rw [Nat.add_sub_cancel' (le_of_unitEndFrom_singleton htop hlast)]

end Opening

namespace Text

open StringToken (Splits StandsFor)

/-! ## Skipping -/

/-- The offset right after the string literal that opens at `start`. Whatever stands there is taken
for the quote. -/
def skipString (text : Text) (start : Nat) : Reading Nat :=
  if (['"', '"', '"'] : Text).isPrefixOf (text.drop start) then .error ⟨.multilineString, start⟩
  else do
    let last ← Opening.unitEndFrom [.string start] (start + 1) (text.drop (start + 1))
    return last + 1

/-- What stands between the quotes of the string literal from `start` up to `e`, which is the offset
behind its closing quote. -/
def insideLiteral (text : Text) (start e : Nat) : Text := (text.take (e - 1)).drop (start + 1)

variable {text : Text} {start e : Nat}

/-- **Where a quote stands, the string literal is the unit that starts there.** -/
theorem skipString_eq_literalEnd (h : text[start]? = some (CodePoint.scalar '"')) :
    text.skipString start = text.literalEnd start := by
  rw [skipString, literalEnd, drop_eq_cons_of_getElem? h, unitEnd, Opening.unitEndFrom,
    Opening.advance, Opening.advanceOutside, if_pos rfl, List.isPrefixOf_cons_cons_self]
  split
  · rfl
  · have hstart : (Opening.string start).blame.offset = start := rfl
    show _ = Reading.moved start (Opening.unitEndFrom [.string 0] 1 _) >>= _
    rw [Opening.unitEndFrom_singleton_eq hstart, Opening.earlier, Nat.sub_self]
    cases Opening.unitEndFrom [.string 0] 1 (text.drop (start + 1)) <;> rfl

/-- **What is skipped is a string literal in its place**, and the scanner comes to its closing
quote. -/
theorem exists_of_skipString (h : text.skipString start = .ok e) :
    ∃ inside after, text.drop (start + 1) = inside ++ CodePoint.scalar '"' :: after ∧
      e = start + 1 + inside.length + 1 ∧
      Opening.unitEndFrom [.string start] (start + 1) (inside ++ CodePoint.scalar '"' :: after) =
        .ok (start + 1 + inside.length) := by
  rw [skipString] at h
  split at h
  · cases h
  · obtain ⟨last, hlast, he⟩ := Reading.bind_eq_ok.1 h
    cases he
    obtain ⟨taken, after, htext, _, hpasses⟩ := Grammar.exists_passes_of_unitEndFrom hlast
    obtain ⟨inside, behind, rfl, hitems, _⟩ := Grammar.leaves_of_passes hpasses
    rw [List.append_assoc, List.cons_append] at htext
    have hwithin := Opening.unitEndFrom_of_within (hitems.within start [] (start + 1))
      (List.cons_ne_nil _ _)
    rw [← htext, hlast] at hwithin
    have hend : last = start + 1 + inside.length := Except.ok.inj hwithin
    refine ⟨inside, behind ++ after, htext, by rw [hend], ?_⟩
    rw [← htext, ← hend]
    exact hlast

/-- **Skipping and decoding a string literal agree.** What stands between the quotes is split into
tokens in just one way. Decoding does with it what reading it by itself does. It succeeds just when
every token is accepted: then the cursor stops on the closing quote, what is read is what the tokens
stand for, one after the other, and it is interpolated if one of them is an interpolation. Otherwise
the first token that is not accepted is blamed. -/
theorem decode_of_skipString (h : text.skipString start = .ok e) :
    ∃ tokens, (∀ other, Splits (text.drop (e - 1)) (text.insideLiteral start e) other ↔
      other = tokens) ∧
      text.decode start e = ((StringContent.read (text.insideLiteral start e)).moved
        (start + 1)).map
        (fun content => (content, e - 1)) ∧
      ((∃ result, text.decode start e = .ok result) ↔ ∀ token ∈ tokens, token.IsAccepted) ∧
      (∀ content cursor, text.decode start e = .ok (content, cursor) →
        cursor + 1 = e ∧ text[cursor]? = some (CodePoint.scalar '"') ∧
        (∃ values, List.Forall₂ StandsFor tokens values ∧ content.value = values.flatten) ∧
        (content.interpolated ↔ ∃ inner, .interpolation inner ∈ tokens)) ∧
      ∀ before token later, tokens = before ++ token :: later →
        (∀ other ∈ before, other.IsAccepted) → ¬ token.IsAccepted →
        ∃ cause, token.Blames cause ∧ text.decode start e =
          .error ⟨cause, start + 1 + (before.flatMap StringToken.written).length⟩ := by
  obtain ⟨inside, after, hdrop, rfl, hlast⟩ := exists_of_skipString h
  rw [Nat.add_sub_cancel]
  -- The split comes from the scanner that has skipped the literal, and the decoder is then followed
  -- along it.
  have hsettled : Opening.IsSettled [.string start] := by simp [Opening.IsSettled]
  obtain ⟨tokens, htokens⟩ := StringToken.exists_splits hsettled hlast
  obtain ⟨hinside, hafter⟩ := drop_eq_append_iff.1 hdrop
  have hfront : (text.take (start + 1)).length = start + 1 := by
    have hlength := congrArg List.length hdrop
    rw [List.length_drop, List.length_append, List.length_cons] at hlength
    rw [List.length_take]
    omega
  have hdecode : text.decode start (start + 1 + inside.length + 1) =
      ((StringContent.read inside).moved (start + 1)).map
        fun content => (content, start + 1 + inside.length) := by
    have hwhole := decodeFrom_eq htokens rfl (text.take (start + 1))
    rw [← hdrop, List.take_append_drop, hfront] at hwhole
    exact hwhole
  -- What remains is said of the inside alone, as reading it by itself says it.
  have hliteral : text.insideLiteral start (start + 1 + inside.length + 1) = inside := hinside
  rw [hliteral, hafter, hdecode]
  refine ⟨tokens, fun other => ⟨fun hother => hother.unique htokens,
    fun hother => hother ▸ htokens⟩, rfl, ?_, ?_, ?_⟩
  · rw [StringToken.forall_isAccepted_iff]
    constructor
    · rintro ⟨_, hresult⟩
      obtain ⟨content, hread, _⟩ := Outcome.map_eq_ok_iff.1 hresult
      obtain ⟨values, hvalues, _⟩ := (StringContent.read_eq_ok_iff htokens).1
        (Reading.moved_eq_ok.1 hread)
      exact ⟨values, hvalues⟩
    · rintro ⟨values, hvalues⟩
      exact ⟨_, by rw [StringContent.read_of_standsFor htokens hvalues]; rfl⟩
  · intro content cursor hresult
    obtain ⟨read, hread, hcontent⟩ := Outcome.map_eq_ok_iff.1 hresult
    cases hcontent
    obtain ⟨values, hvalues, rfl⟩ := (StringContent.read_eq_ok_iff htokens).1
      (Reading.moved_eq_ok.1 hread)
    refine ⟨rfl, ?_, ⟨values, hvalues, rfl⟩, ?_⟩
    · rw [← List.head?_drop, hafter, List.head?_cons]
    · exact StringToken.any_isInterpolation_iff
  · intro before token later hparts hbefore htoken
    rw [hparts] at htokens
    obtain ⟨cause, hcause, hread⟩ := StringContent.read_of_blamed htokens hbefore htoken
    exact ⟨cause, hcause, by rw [hread]; rfl⟩

/-- A quote and a backslash inside braces that hold no number, where skipping takes the two
together; and a closing brace inside an interpolation. -/
theorem decode_of_skipString_braces :
    ∃ text : Text, text = "\"a\\u\x7b\\\"\x7d\\n\"" ∧ text.skipString 0 = .ok 11 ∧
      text.decode 0 11 = .error ⟨.invalidUnicodeEscape, 2⟩ ∧
      ∃ text : Text, text = "\"\\u\x7b48\x7d\\(\"\x7d\")\"" ∧ text.skipString 0 = .ok 14 ∧
        text.decode 0 14 = .ok (⟨"H\\(\"\x7d\")", true⟩, 13) := by
  refine ⟨_, rfl, by decide +kernel, ?_, _, rfl, by decide +kernel, ?_⟩
  · obtain ⟨tokens, hsplits, _, _, _, hblamed⟩ :=
      @decode_of_skipString ("\"a\\u\x7b\\\"\x7d\\n\"" : Text) 0 11 (by decide +kernel)
    have hlast : ∀ after, Splits after ['\\', 'n'] [.escape 'n'] := fun after =>
      .escape (by decide) (fun ⟨_, hsame, _⟩ => by cases hsame) .nil
    have hsplit : ∀ after, Splits after ['a', '\\', 'u', '\x7b', '\\', '"', '\x7d', '\\', 'n']
        [.point 'a', .numbered ['\\', '"'], .escape 'n'] := fun after =>
      .point (by decide) (@Splits.numbered _ ['\\', '"'] _ _ (by decide) (hlast after))
    have hinside : Text.insideLiteral ("\"a\\u\x7b\\\"\x7d\\n\"" : Text) 0 11 =
        (['a', '\\', 'u', '\x7b', '\\', '"', '\x7d', '\\', 'n'] : Text) := by decide +kernel
    have htokens := (hsplits _).1 (hinside ▸ hsplit _)
    obtain ⟨cause, hcause, hdecode⟩ :=
      hblamed [.point 'a'] (.numbered ['\\', '"']) [.escape 'n'] htokens.symm
        (by simp [StringToken.IsAccepted]) (fun ⟨n, _, hn⟩ => by
          rw [show HexNumeral.value? ['\\', '"'] = none by decide +kernel] at hn
          cases hn)
    rw [hdecode, show cause = .invalidUnicodeEscape from hcause]
    rfl
  · obtain ⟨tokens, hsplits, hdecode, _, _, _⟩ :=
      @decode_of_skipString ("\"\\u\x7b48\x7d\\(\"\x7d\")\"" : Text) 0 14 (by decide +kernel)
    rw [hdecode]
    decide +kernel

end Text

end MemberSynthesis
