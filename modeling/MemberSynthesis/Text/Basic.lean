import MemberSynthesis.Text.CodePoint

/-!
# Making and cutting texts

How the fixed wording of messages and of generated code enters a text, how texts are written one
after the other, and how the ends of a text are stripped of what does not matter there. A string is
taken for a text where one is expected, so that wordings can be written as strings. The other
direction is not defined, as a text may hold what no string does.
-/

set_option autoImplicit false

namespace MemberSynthesis

namespace Text

/-! ## Making -/

/-- The code points of a string, none of which is a surrogate. -/
def ofString (s : String) : Text := s.toList.map CodePoint.scalar

instance : Coe String Text := ⟨ofString⟩

/-- The decimal digits of a number. -/
def ofNat (n : Nat) : Text := (Nat.toDigits 10 n).map CodePoint.scalar

/-- The decimal digits of a number, after a minus sign if it is negative. -/
def ofInt : Int → Text
  | .ofNat n => ofNat n
  | .negSucc n => "-" ++ ofNat (n + 1)

/-- The texts one after the other, with a separator between each two. None stands before the first
or behind the last. -/
def joined (separator : Text) (texts : List Text) : Text := separator.intercalate texts

/-! ## Cutting -/

/-- The text without the code points at its end that satisfy `p`. -/
def dropEndWhile (p : CodePoint → Bool) (text : Text) : Text :=
  (text.reverse.dropWhile p).reverse

/-- The text without the code points at its two ends that satisfy `p`. -/
def strip (p : CodePoint → Bool) (text : Text) : Text := dropEndWhile p (text.dropWhile p)

theorem length_dropEndWhile_le (p : CodePoint → Bool) (text : Text) :
    (dropEndWhile p text).length ≤ text.length := by
  have h := (List.dropWhile_sublist (l := text.reverse) p).length_le
  simpa [dropEndWhile] using h

theorem length_strip_le (p : CodePoint → Bool) (text : Text) :
    (strip p text).length ≤ text.length :=
  Nat.le_trans (length_dropEndWhile_le p _) (List.dropWhile_sublist p).length_le

end Text

end MemberSynthesis
