import Mathlib.Data.Nat.Digits.Defs
import Mathlib.Tactic.Ring
import MemberSynthesis.Proofs.Outcome
import MemberSynthesis.Proofs.Text.Basic
import MemberSynthesis.Text.HexNumeral

/-!
# Numerals and the code points they number

`HexNumeral.value?` takes the notation of a numeral apart from the front: blanks off both ends, a
sign, the mark `0x`, and then a fold over the digits that multiplies by sixteen and lets an
underscore through now and then. That is how the number is computed, and nothing in it says which
texts are numerals. Here the notation is a grammar, from the digits up to the blanks around them
(`HexNumeral.Spells`), and **the reader gives just the number that the notation spells**
(`HexNumeral.value?_eq_some_iff`).

The grammar adds digits at the *end*, so that a value is one step of the fold, `16 * value + digit`,
and both directions are inductions without an arithmetic of powers. The one place where the reader
has a choice is the mark: after a zero, an `x` could only be a digit, and it is none
(`not_digits_marked`), so that no text is read in two ways.

## What passes for a numeral

Much of what is spelt looks like no number in hexadecimal. Digits of any script count; so do a sign,
blanks on both sides, and a zero of any script in the mark. The numerals that do look like one, at
most eight digits of ASCII that number a scalar value, are set apart as `HexNumeral.IsPlain`, and
`HexNumeral.isPlain_iff` says what is missing from a numeral that is not among them.

## What is used elsewhere

* A numeral numbers one code point at most (`eq_of_spells`), so an escape stands for one code point.
* A numeral is made of digits, four signs and blanks, and of nothing else (`not_mem_of_spells`). So
  no quote, no backslash and no brace can stand in one, and a string literal is cut at its escapes
  whatever their numerals look like.
-/

set_option autoImplicit false

namespace MemberSynthesis

/-- The code points are numbered from zero to `0x10FFFF`, without a gap: where the scalar values
leave one out, there are the surrogates. -/
theorem CodePoint.exists_toNat_eq_iff {n : Nat} :
    (∃ c : CodePoint, c.toNat = n) ↔ n ≤ 0x10FFFF := by
  constructor
  · rintro ⟨c, rfl⟩
    cases c with
    | scalar c =>
      have hvalid : c.toNat.isValidChar := c.valid
      simp only [Nat.isValidChar] at hvalid
      simp only [toNat]
      omega
    | surrogate n =>
      have hn := n.isLt
      simp only [toNat]
      omega
  · intro hn
    by_cases hvalid : n.isValidChar
    · refine ⟨scalar (Char.ofNat n), toNat_of_ofNat? ?_⟩
      rw [ofNat?, if_pos hvalid]
    · have hsurrogate : 0xD800 ≤ n ∧ n < 0xE000 := by
        simp only [Nat.isValidChar] at hvalid
        omega
      refine ⟨surrogate ⟨n - 0xD800, by omega⟩, toNat_of_ofNat? ?_⟩
      rw [ofNat?, if_neg hvalid, dif_pos hsurrogate]

/-- No blank is a digit, of whatever script. Checked on the list of all blanks. -/
theorem CodePoint.hexDigit?_of_isBlank {c : CodePoint} (h : c.isBlank) :
    c.hexDigit? = none ∧ c.decimalDigit? = none := by
  have hnumbers : ∀ n ∈ blankNumbers, ¬ (0x61 ≤ n ∧ n ≤ 0x66) ∧ ¬ (0x41 ≤ n ∧ n ≤ 0x46) ∧
      ¬ (0x30 ≤ n ∧ n ≤ 0x39) ∧ (wideDigitZeros.find? fun z => z ≤ n && n ≤ z + 9) = none := by
    decide +kernel
  obtain ⟨hsmall, hcapital, hdigit, hwide⟩ := hnumbers _ (mem_blankNumbers h)
  have hdecimal : c.decimalDigit? = none := by
    rw [decimalDigit?, if_neg hdigit, hwide, Option.map_none]
  exact ⟨by rw [hexDigit?, if_neg hsmall, if_neg hcapital, hdecimal], hdecimal⟩

namespace HexNumeral

/-! ## The notation

Four layers, as a numeral has them from the inside to the outside: digits, the mark before them, a
sign before that, and blanks around it all. Each layer is a predicate of the text and the number it
spells, so that the value is part of the grammar and no function on derivations is needed. -/

/-- Digits, the most significant one first, with single underscores between them. No underscore
stands at either end, and no two of them side by side. -/
inductive Digits : Text → Nat → Prop
  | one {c : CodePoint} {digit : Nat} : c.hexDigit? = some digit → Digits [c] digit
  | snoc {front : Text} {value : Nat} {c : CodePoint} {digit : Nat} :
    Digits front value → c.hexDigit? = some digit → Digits (front ++ [c]) (16 * value + digit)
  | snocScore {front : Text} {value : Nat} {c : CodePoint} {digit : Nat} :
    Digits front value → c.hexDigit? = some digit →
    Digits (front ++ [CodePoint.scalar '_', c]) (16 * value + digit)

/-- Digits that `0x` may precede, its zero one of any script, and an underscore after that. The
underscore needs the mark: before bare digits it would be the first code point, which it cannot
be. -/
inductive Magnitude : Text → Nat → Prop
  | digits {text : Text} {n : Nat} : Digits text n → Magnitude text n
  | marked {zero x : CodePoint} {text : Text} {n : Nat} :
    zero.decimalDigit? = some 0 → x = 'x' ∨ x = 'X' → Digits text n →
      Magnitude (zero :: x :: text) n
  | markedScore {zero x : CodePoint} {text : Text} {n : Nat} :
    zero.decimalDigit? = some 0 → x = 'x' ∨ x = 'X' → Digits text n →
    Magnitude (zero :: x :: CodePoint.scalar '_' :: text) n

/-- Digits that a sign may precede. Zero is spelt with a minus too, and then stands for the same
number. -/
inductive Signed : Text → Int → Prop
  | unsigned {text : Text} {n : Nat} : Magnitude text n → Signed text n
  | plus {text : Text} {n : Nat} : Magnitude text n → Signed (CodePoint.scalar '+' :: text) n
  | minus {text : Text} {n : Nat} : Magnitude text n → Signed (CodePoint.scalar '-' :: text) (-n)

/-- The numeral stands for the number. Blanks may surround what spells it. They are not those that
are trimmed elsewhere: the four information separators are no blanks here. -/
def Spells (numeral : Text) (value : Int) : Prop :=
  ∃ before text after, numeral = before ++ (text ++ after) ∧ (∀ c ∈ before, c.isNumeralBlank) ∧
    (∀ c ∈ after, c.isNumeralBlank) ∧ Signed text value

variable {text front rest : Text} {value n : Nat}

theorem ne_of_hexDigit? {c d : CodePoint} {digit : Nat} (hc : c.hexDigit? = some digit)
    (hd : d.hexDigit? = none) : c ≠ d := by
  rintro rfl
  rw [hd] at hc
  cases hc

theorem exists_hexDigit?_of_decimalDigit? {c : CodePoint} {digit : Nat}
    (h : c.decimalDigit? = some digit) : ∃ digit, c.hexDigit? = some digit := by
  rw [CodePoint.hexDigit?, h]
  split
  · exact ⟨_, rfl⟩
  · split <;> exact ⟨_, rfl⟩

theorem Digits.exists_cons (h : Digits text n) :
    ∃ c digit more, text = c :: more ∧ c.hexDigit? = some digit := by
  induction h with
  | one hc => exact ⟨_, _, [], rfl, hc⟩
  | snoc _ _ ih | snocScore _ _ ih =>
    obtain ⟨c, digit, more, rfl, hc⟩ := ih
    exact ⟨c, digit, _, rfl, hc⟩

theorem Digits.exists_concat (h : Digits text n) :
    ∃ more c digit, text = more ++ [c] ∧ c.hexDigit? = some digit := by
  cases h with
  | one hc => exact ⟨[], _, _, rfl, hc⟩
  | snoc _ hc => exact ⟨_, _, _, rfl, hc⟩
  | @snocScore front _ c _ _ hc => exact ⟨front ++ [CodePoint.scalar '_'], c, _, by simp, hc⟩

/-! ## The reader knows the notation

Layer by layer, what the reader computes is what the grammar spells. The two functions for digits
carry the value of what was read before, so the induction is about digits behind a `front` that has
been read already; `digits?_append` joins the two parts again. -/

theorem digitsFrom?_cons {c : CodePoint} {digit : Nat} (h : c.hexDigit? = some digit) :
    digitsFrom? value (c :: rest) = digitsFrom? (16 * value + digit) rest := by
  have hscore : c ≠ '_' := ne_of_hexDigit? h (by decide)
  rw [digitsFrom?.eq_def]
  simp only [if_neg hscore, h, Option.bind_some]

theorem digitsFrom?_score {c : CodePoint} {digit : Nat} (h : c.hexDigit? = some digit) :
    digitsFrom? value (CodePoint.scalar '_' :: c :: rest) =
      digitsFrom? (16 * value + digit) rest := by
  rw [digitsFrom?.eq_def]
  simp only [if_pos, h, Option.bind_some]

theorem digitsFrom?_append : ∀ {front : Text} {value : Nat}, digitsFrom? value front = some n →
    digitsFrom? value (front ++ rest) = digitsFrom? n rest
  | [], _, h => by
    cases h
    rfl
  | c :: more, value, h => by
    unfold digitsFrom? at h
    split at h
    · rename_i hc
      subst hc
      cases more with
      | nil => cases h
      | cons d more =>
        obtain ⟨digit, hdigit, hmore⟩ := Option.bind_eq_some_iff.1 h
        exact (digitsFrom?_score hdigit).trans (digitsFrom?_append hmore)
    · obtain ⟨digit, hdigit, hmore⟩ := Option.bind_eq_some_iff.1 h
      exact (digitsFrom?_cons hdigit).trans (digitsFrom?_append hmore)

theorem digits?_append (h : digits? front = some value) :
    digits? (front ++ rest) = digitsFrom? value rest := by
  cases front with
  | nil => cases h
  | cons c more =>
    obtain ⟨digit, hdigit, hmore⟩ := Option.bind_eq_some_iff.1 h
    rw [List.cons_append, digits?, hdigit]
    exact digitsFrom?_append hmore

theorem digits_of_digitsFrom? : ∀ {text front : Text} {value : Nat}, Digits front value →
    digitsFrom? value text = some n → Digits (front ++ text) n
  | [], front, _, hfront, h => by
    cases h
    rwa [List.append_nil]
  | c :: rest, front, value, hfront, h => by
    unfold digitsFrom? at h
    split at h
    · rename_i hc
      subst hc
      cases rest with
      | nil => cases h
      | cons d more =>
        obtain ⟨digit, hdigit, hmore⟩ := Option.bind_eq_some_iff.1 h
        have hall := digits_of_digitsFrom? (hfront.snocScore hdigit) hmore
        rwa [List.append_assoc] at hall
    · obtain ⟨digit, hdigit, hmore⟩ := Option.bind_eq_some_iff.1 h
      have hall := digits_of_digitsFrom? (hfront.snoc hdigit) hmore
      rwa [List.append_assoc] at hall

theorem digits?_eq_some_iff : digits? text = some n ↔ Digits text n := by
  constructor
  · intro h
    cases text with
    | nil => cases h
    | cons c rest =>
      obtain ⟨digit, hdigit, hrest⟩ := Option.bind_eq_some_iff.1 h
      exact digits_of_digitsFrom? (.one hdigit) hrest
  · intro h
    induction h with
    | one hc => rw [digits?, hc]; rfl
    | snoc _ hc ih => rw [digits?_append ih, digitsFrom?_cons hc]; rfl
    | snocScore _ hc ih => rw [digits?_append ih, digitsFrom?_score hc]; rfl

theorem hexDigit?_of_mark {x : CodePoint} (h : x = 'x' ∨ x = 'X') :
    x.hexDigit? = none ∧ x ≠ '_' := by
  rcases h with rfl | rfl <;> decide

/-- The mark of a hexadecimal numeral is no digit, so nothing can be read past it as digits. It is
what makes the alternatives of `Magnitude` exclude each other. -/
theorem not_digits_marked {zero x : CodePoint} (hx : x = 'x' ∨ x = 'X') :
    ¬ Digits (zero :: x :: rest) n := by
  obtain ⟨hnone, hscore⟩ := hexDigit?_of_mark hx
  intro h
  obtain ⟨digit, _, hrest⟩ := Option.bind_eq_some_iff.1 (digits?_eq_some_iff.2 h)
  unfold digitsFrom? at hrest
  rw [if_neg hscore, hnone] at hrest
  cases hrest

theorem magnitude?_eq_some_iff : magnitude? text = some n ↔ Magnitude text n := by
  constructor
  · intro h
    unfold magnitude? at h
    split at h
    · split at h
      · rename_i hmark
        split at h
        · exact .markedScore hmark.1 hmark.2 (digits?_eq_some_iff.1 h)
        · exact .marked hmark.1 hmark.2 (digits?_eq_some_iff.1 h)
      · exact .digits (digits?_eq_some_iff.1 h)
    · exact .digits (digits?_eq_some_iff.1 h)
  · intro h
    cases h with
    | digits h =>
      unfold magnitude?
      split
      · rw [if_neg fun hmark => not_digits_marked hmark.2 h]
        exact digits?_eq_some_iff.2 h
      · exact digits?_eq_some_iff.2 h
    | @marked zero x text _ hzero hx h =>
      obtain ⟨c, digit, more, rfl, hc⟩ := h.exists_cons
      -- Behind the mark stands a digit and no underscore, which would be taken off.
      have hscore : ∀ later, c :: more = CodePoint.scalar '_' :: later → False := by
        rintro later ⟨⟩
        exact ne_of_hexDigit? hc (by decide) rfl
      rw [magnitude?, if_pos ⟨hzero, hx⟩]
      · exact digits?_eq_some_iff.2 h
      · exact hscore
    | markedScore hzero hx h =>
      rw [magnitude?, if_pos ⟨hzero, hx⟩]
      exact digits?_eq_some_iff.2 h

theorem Magnitude.exists_cons (h : Magnitude text n) :
    ∃ c digit more, text = c :: more ∧ c.hexDigit? = some digit := by
  cases h with
  | digits h => exact h.exists_cons
  | marked hzero _ _ | markedScore hzero _ _ =>
    obtain ⟨digit, hdigit⟩ := exists_hexDigit?_of_decimalDigit? hzero
    exact ⟨_, digit, _, rfl, hdigit⟩

theorem Magnitude.exists_concat (h : Magnitude text n) :
    ∃ more c digit, text = more ++ [c] ∧ c.hexDigit? = some digit := by
  cases h with
  | digits h => exact h.exists_concat
  | marked _ _ h =>
    obtain ⟨more, c, digit, rfl, hc⟩ := h.exists_concat
    exact ⟨_ :: _ :: more, c, digit, rfl, hc⟩
  | markedScore _ _ h =>
    obtain ⟨more, c, digit, rfl, hc⟩ := h.exists_concat
    exact ⟨_ :: _ :: _ :: more, c, digit, rfl, hc⟩

theorem not_isNumeralBlank {c : CodePoint} {digit : Nat} (h : c.hexDigit? = some digit) :
    c.isNumeralBlank = false := by
  cases hblank : c.isNumeralBlank with
  | false => rfl
  | true =>
    rw [CodePoint.isNumeralBlank, Bool.and_eq_true] at hblank
    rw [(CodePoint.hexDigit?_of_isBlank hblank.1).1] at h
    cases h

theorem Signed.exists_cons {value : Int} (h : Signed text value) :
    ∃ c more, text = c :: more ∧ c.isNumeralBlank = false := by
  cases h with
  | unsigned h =>
    obtain ⟨c, _, more, rfl, hc⟩ := h.exists_cons
    exact ⟨c, more, rfl, not_isNumeralBlank hc⟩
  | plus | minus => exact ⟨_, _, rfl, by decide⟩

theorem Signed.exists_concat {value : Int} (h : Signed text value) :
    ∃ more c, text = more ++ [c] ∧ c.isNumeralBlank = false := by
  cases h with
  | unsigned h =>
    obtain ⟨more, c, _, rfl, hc⟩ := h.exists_concat
    exact ⟨more, c, rfl, not_isNumeralBlank hc⟩
  | plus h | minus h =>
    obtain ⟨more, c, _, rfl, hc⟩ := h.exists_concat
    exact ⟨_ :: more, c, rfl, not_isNumeralBlank hc⟩

theorem signed_eq_some_iff {sign : Int → Int} {value : Int} :
    ((magnitude? text).bind fun n => some (n : Int)).map sign = some value ↔
      ∃ n, Magnitude text n ∧ sign n = value := by
  simp only [Option.map_eq_some_iff, Option.bind_eq_some_iff, Option.some.injEq,
    ← magnitude?_eq_some_iff]
  constructor
  · rintro ⟨_, ⟨n, hn, rfl⟩, hsign⟩
    exact ⟨n, hn, hsign⟩
  · rintro ⟨n, hn, hsign⟩
    exact ⟨n, ⟨n, hn, rfl⟩, hsign⟩

/-- What the blanks surround is read as digits with a sign. The cases are those of the reader, which
looks at the first code point alone; a digit is neither sign. -/
theorem value?_eq_some_iff_signed {numeral : Text} {value : Int} :
    value? numeral = some value ↔ Signed (Text.strip CodePoint.isNumeralBlank numeral) value := by
  unfold value?
  split
  · rename_i hnil
    rw [hnil]
    constructor
    · intro h
      cases h
    · intro h
      obtain ⟨_, _, hcons, _⟩ := h.exists_cons
      cases hcons
  · rename_i c rest hcut
    rw [hcut]
    constructor
    · intro h
      split at h
      · rename_i hc
        subst hc
        obtain ⟨n, hn, rfl⟩ := signed_eq_some_iff.1 h
        exact .minus hn
      · split at h
        · rename_i hc
          subst hc
          obtain ⟨n, hn, rfl⟩ := signed_eq_some_iff.1 h
          exact .plus hn
        · obtain ⟨n, hn, rfl⟩ := signed_eq_some_iff.1 h
          exact .unsigned hn
    · intro h
      cases h with
      | unsigned h =>
        -- Without a sign, the first code point is a digit, and so neither of the signs.
        obtain ⟨_, _, _, hcons, hc⟩ := h.exists_cons
        cases hcons
        have hminus : c ≠ '-' := ne_of_hexDigit? hc (by decide)
        have hplus : c ≠ '+' := ne_of_hexDigit? hc (by decide)
        rw [if_neg hminus, if_neg hplus]
        exact signed_eq_some_iff.2 ⟨_, h, rfl⟩
      | plus h =>
        rw [if_neg (by decide), if_pos rfl]
        exact signed_eq_some_iff.2 ⟨_, h, rfl⟩
      | minus h =>
        rw [if_pos rfl]
        exact signed_eq_some_iff.2 ⟨_, h, rfl⟩

/-- **The value of a numeral is the number that the notation gives it.** In particular a text
without a value is spelt by nothing, and a numeral has one value only. -/
theorem value?_eq_some_iff {numeral : Text} {value : Int} :
    value? numeral = some value ↔ Spells numeral value := by
  rw [value?_eq_some_iff_signed]
  constructor
  · intro h
    obtain ⟨after, hnumeral, hafter⟩ := numeral.exists_eq_append_strip CodePoint.isNumeralBlank
    exact ⟨_, _, after, hnumeral, fun c hc => List.all_eq_true.1 List.all_takeWhile c hc, hafter, h⟩
  · rintro ⟨before, text, after, rfl, hbefore, hafter, h⟩
    rwa [Text.strip_append h.exists_cons h.exists_concat hbefore hafter]

/-- **A numeral numbers the code point that has its value.** Negative values and values above
`0x10FFFF` number none; the surrogates are numbered like all others. -/
theorem codePoint?_eq_some_iff {numeral : Text} {c : CodePoint} :
    codePoint? numeral = some c ↔ value? numeral = some (c.toNat : Int) := by
  unfold codePoint?
  split
  · rename_i n hvalue
    rw [hvalue, CodePoint.ofNat?_eq_some_iff, Option.some.injEq]
    constructor
    · rintro rfl
      rfl
    · intro h
      exact (Int.ofNat.inj h).symm
  · rename_i hnone
    constructor
    · intro h
      cases h
    · intro h
      exact absurd h (hnone c.toNat)

/-- A numeral is the number of one code point only, since it has one value, and a code point is
determined by its number. -/
theorem eq_of_spells {numeral : Text} {c d : CodePoint} (hc : Spells numeral c.toNat)
    (hd : Spells numeral d.toNat) : c = d := by
  rw [← value?_eq_some_iff, ← codePoint?_eq_some_iff] at hc hd
  rw [hc] at hd
  exact Option.some.inj hd

/-! ## What a numeral is made of

Whoever looks for the end of a numeral, or for the end of the string that it stands in, looks for
code points that are not in one. One lemma for each layer of the grammar says so, for any code point
that is neither a digit nor a sign nor a blank. -/

/-- The code points of the notation that are neither digits nor blanks: the underscore, the mark in
either case, plus and minus. -/
def signs : Text := "_xX+-"

section

variable {d : CodePoint}

theorem Digits.not_mem (h : Digits text n) (hdigit : d.hexDigit? = none) (hsign : d ∉ signs) :
    d ∉ text := by
  have hscore : d ≠ '_' := by
    rintro rfl
    exact hsign (by decide)
  induction h with
  | one hc => exact List.mem_singleton.not.2 (ne_of_hexDigit? hc hdigit).symm
  | snoc _ hc ih =>
    rw [List.mem_append, not_or]
    exact ⟨ih, List.mem_singleton.not.2 (ne_of_hexDigit? hc hdigit).symm⟩
  | snocScore _ hc ih =>
    rw [List.mem_append, List.mem_cons, not_or, not_or]
    exact ⟨ih, hscore, List.mem_singleton.not.2 (ne_of_hexDigit? hc hdigit).symm⟩

theorem Magnitude.not_mem (h : Magnitude text n) (hdigit : d.hexDigit? = none) (hsign : d ∉ signs) :
    d ∉ text := by
  have hmark : ∀ {zero x : CodePoint}, zero.decimalDigit? = some 0 → x = 'x' ∨ x = 'X' →
      d ≠ zero ∧ d ≠ x := by
    intro zero x hzero hx
    obtain ⟨_, hzero⟩ := exists_hexDigit?_of_decimalDigit? hzero
    refine ⟨(ne_of_hexDigit? hzero hdigit).symm, ?_⟩
    rintro rfl
    rcases hx with rfl | rfl <;> exact hsign (by decide)
  cases h with
  | digits h => exact h.not_mem hdigit hsign
  | marked hzero hx h =>
    rw [List.mem_cons, List.mem_cons, not_or, not_or]
    exact ⟨(hmark hzero hx).1, (hmark hzero hx).2, h.not_mem hdigit hsign⟩
  | markedScore hzero hx h =>
    rw [List.mem_cons, List.mem_cons, List.mem_cons, not_or, not_or, not_or]
    refine ⟨(hmark hzero hx).1, (hmark hzero hx).2, ?_, h.not_mem hdigit hsign⟩
    rintro rfl
    exact hsign (by decide)

theorem Signed.not_mem {value : Int} (h : Signed text value) (hdigit : d.hexDigit? = none)
    (hsign : d ∉ signs) : d ∉ text := by
  cases h with
  | unsigned h => exact h.not_mem hdigit hsign
  | plus h | minus h =>
    rw [List.mem_cons, not_or]
    refine ⟨?_, h.not_mem hdigit hsign⟩
    rintro rfl
    exact hsign (by decide)

/-- **A numeral is made of digits, the signs of the notation, and blanks.** Stated for what does not
stand in it, because that is how it is used: with a quote, a backslash or a closing brace for
`d`. -/
theorem not_mem_of_spells {numeral : Text} {value : Int} (h : Spells numeral value)
    (hdigit : d.hexDigit? = none) (hsign : d ∉ signs) (hblank : d.isNumeralBlank = false) :
    d ∉ numeral := by
  obtain ⟨before, text, after, rfl, hbefore, hafter, hsigned⟩ := h
  rw [List.mem_append, List.mem_append, not_or, not_or]
  refine ⟨fun hd => ?_, hsigned.not_mem hdigit hsign, fun hd => ?_⟩
  · rw [hbefore d hd] at hblank
    cases hblank
  · rw [hafter d hd] at hblank
    cases hblank

end

/-! ## Plain numerals

The numerals that a reader of source text expects: digits of ASCII and nothing else, eight at most,
and the number of a scalar value. Their value is that of the digits in base sixteen, computed by the
library and not by the reader (`Nat.ofDigits`), so that this is a second reading of the notation
beside `Spells`. -/

/-- The hexadecimal digits of ASCII and their values, in both cases. A table, so that what is a
digit here does not depend on what the reader takes for one. -/
def asciiDigits : List (CodePoint × Nat) :=
  ("0123456789abcdef" : Text).zipIdx ++ ("ABCDEF" : Text).zipIdx 10

/-- The numeral is one to eight digits of ASCII, and they are the number of the character.
`Nat.ofDigits` takes the least significant digit first, hence the reversal. -/
structure IsPlain (numeral : Text) (c : Char) : Prop where
  ne_nil : numeral ≠ []
  length_le : numeral.length ≤ 8
  digits : ∃ digits, List.Forall₂ (fun digit value => (digit, value) ∈ asciiDigits) numeral digits ∧
    Nat.ofDigits 16 digits.reverse = c.toNat

theorem hexDigit?_of_mem_asciiDigits {c : CodePoint} {digit : Nat} (h : (c, digit) ∈ asciiDigits) :
    c.hexDigit? = some digit := by
  have hall : ∀ entry ∈ asciiDigits, entry.1.hexDigit? = some entry.2 := by decide +kernel
  exact hall _ h

theorem Digits.append_plain {digits : List Nat} (hfront : Digits front value)
    (h : List.Forall₂ (fun digit value => (digit, value) ∈ asciiDigits) text digits) :
    Digits (front ++ text) (16 ^ digits.length * value + Nat.ofDigits 16 digits.reverse) := by
  induction h generalizing front value with
  | nil => simpa using hfront
  | @cons c digit text digits hc _ ih =>
    have hall := ih (hfront.snoc (hexDigit?_of_mem_asciiDigits hc))
    rw [List.append_assoc] at hall
    rw [List.reverse_cons, Nat.ofDigits_append, Nat.ofDigits_singleton, List.length_reverse,
      List.length_cons]
    have hvalue : 16 ^ (digits.length + 1) * value +
        (Nat.ofDigits 16 digits.reverse + 16 ^ digits.length * digit) =
        16 ^ digits.length * (16 * value + digit) + Nat.ofDigits 16 digits.reverse := by ring
    rwa [hvalue]

/-- Digits of ASCII are digits, and read as the number that they are in base sixteen: the fold of
the reader and the positional value agree. -/
theorem digits_of_plain {digits : List Nat} (hne : text ≠ [])
    (h : List.Forall₂ (fun digit value => (digit, value) ∈ asciiDigits) text digits) :
    Digits text (Nat.ofDigits 16 digits.reverse) := by
  cases h with
  | nil => exact absurd rfl hne
  | cons hc hmore =>
    have hall := (Digits.one (hexDigit?_of_mem_asciiDigits hc)).append_plain hmore
    rw [List.reverse_cons, Nat.ofDigits_append, Nat.ofDigits_singleton, List.length_reverse,
      Nat.add_comm]
    exact hall

theorem Digits.spells (h : Digits text n) : Spells text n :=
  ⟨[], text, [], by simp, fun _ hc => absurd hc List.not_mem_nil,
    fun _ hc => absurd hc List.not_mem_nil, .unsigned (.digits h)⟩

theorem exists_digits (h : ∀ digit ∈ text, digit ∈ asciiDigits.map Prod.fst) :
    ∃ digits, List.Forall₂ (fun digit value => (digit, value) ∈ asciiDigits) text digits := by
  induction text with
  | nil => exact ⟨[], .nil⟩
  | cons c more ih =>
    obtain ⟨hc, hmore⟩ := List.forall_mem_cons.1 h
    obtain ⟨⟨_, digit⟩, hdigit, rfl⟩ := List.mem_map.1 hc
    obtain ⟨digits, hdigits⟩ := ih hmore
    exact ⟨digit :: digits, .cons hdigit hdigits⟩

/-- **Plain numerals are the ones that spell a scalar value in at most eight digits of ASCII** and
with nothing else. So of the numerals that are accepted, it is their length, their script or the
signs in them that makes some not plain, or a surrogate for their number. -/
theorem isPlain_iff {numeral : Text} {c : Char} :
    IsPlain numeral c ↔ numeral.length ≤ 8 ∧ (∀ digit ∈ numeral, digit ∈ asciiDigits.map Prod.fst) ∧
      Spells numeral c.toNat := by
  constructor
  · rintro ⟨hne, hlength, digits, hdigits, hvalue⟩
    refine ⟨hlength, ?_, ?_⟩
    · intro digit hdigit
      obtain ⟨value, _, hmem⟩ := Outcome.exists_of_mem_of_forall₂ hdigits.flip digit hdigit
      exact List.mem_map_of_mem hmem
    · rw [← hvalue]
      exact (digits_of_plain hne hdigits).spells
  · rintro ⟨hlength, hascii, hspells⟩
    have hne : numeral ≠ [] := by
      rintro rfl
      obtain ⟨before, text, after, hnil, _, _, hsigned⟩ := hspells
      obtain ⟨c, more, rfl, _⟩ := hsigned.exists_cons
      simp at hnil
    obtain ⟨digits, hdigits⟩ := exists_digits hascii
    refine ⟨hne, hlength, digits, hdigits, ?_⟩
    have hvalue := value?_eq_some_iff.2 (digits_of_plain hne hdigits).spells
    rw [value?_eq_some_iff.2 hspells] at hvalue
    exact (Int.ofNat.inj (Option.some.inj hvalue)).symm

end HexNumeral

end MemberSynthesis
