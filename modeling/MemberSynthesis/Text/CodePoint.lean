/-!
# Code points

A text is a list of Unicode code points, **surrogates included**. A string literal can name any
code point by number (`\u{D800}`), and the value it stands for then holds a surrogate, which `Char`
cannot represent. So the unit of text is `CodePoint`: a scalar value or one of the 2048 surrogates,
with `toNat` and `ofNat?` as the two directions of the numbering (`ofNat?_eq_some_iff`).
-/

set_option autoImplicit false

namespace MemberSynthesis

/-- A Unicode code point. -/
inductive CodePoint where
  /-- A Unicode scalar value. -/
  | scalar (c : Char)
  /-- The surrogate `U+D800 + n`. -/
  | surrogate (n : Fin 0x800)
  deriving DecidableEq, Repr

/-- A text: its code points in order. -/
abbrev Text := List CodePoint

instance : LawfulBEq Text := inferInstance

namespace CodePoint

instance : Coe Char CodePoint := ⟨scalar⟩

/-- The number of a code point. -/
def toNat : CodePoint → Nat
  | scalar c => c.toNat
  | surrogate n => 0xD800 + n.val

/-- The code point of a number, which is at most `0x10FFFF`. -/
def ofNat? (n : Nat) : Option CodePoint :=
  if n.isValidChar then some (scalar (Char.ofNat n))
  else if h : 0xD800 ≤ n ∧ n < 0xE000 then some (surrogate ⟨n - 0xD800, by omega⟩)
  else none

theorem ofNat?_toNat (c : CodePoint) : ofNat? c.toNat = some c := by
  cases c with
  | scalar c =>
    have h : c.toNat.isValidChar := c.valid
    simp [toNat, ofNat?, h]
  | surrogate n =>
    have hn := n.isLt
    have h : ¬ (0xD800 + n.val).isValidChar := by
      simp only [Nat.isValidChar]
      omega
    have h' : 0xD800 + n.val < 0xE000 := by omega
    simp [toNat, ofNat?, h, h']

theorem toNat_of_ofNat? {n : Nat} {c : CodePoint} (h : ofNat? n = some c) : c.toNat = n := by
  unfold ofNat? at h
  split at h
  · rename_i hv
    cases h
    rw [Char.ofNat, dif_pos hv]
    rfl
  · split at h
    · rename_i hs
      cases h
      simp only [toNat]
      omega
    · cases h

/-- **The numbering is one to one**: a code point is the one of a number just when it has it. -/
theorem ofNat?_eq_some_iff {n : Nat} {c : CodePoint} : ofNat? n = some c ↔ c.toNat = n :=
  ⟨toNat_of_ofNat?, fun h => h ▸ ofNat?_toNat c⟩

/-- A capital letter of ASCII made small. -/
def toSmall : CodePoint → CodePoint
  | scalar c => scalar c.toLower
  | surrogate n => surrogate n

/-- Whether one of the closed ranges holds the number. -/
def inRanges (ranges : List (Nat × Nat)) (n : Nat) : Bool :=
  ranges.any fun r => r.1 ≤ n && n ≤ r.2

end CodePoint

end MemberSynthesis
