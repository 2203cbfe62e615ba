import MemberSynthesis.Proofs.Source.Step

/-!
# Balanced texts

A reader that has found the end of a group, an argument or an element cuts it out and reads it on
its own. It relies on the cut being sound: what the scanner went over without a fault in the large
text it goes over without a fault in the piece.

`Opening.Passes` says that the scanner goes over a text, from what is entered before it to what is
entered after it; unlike `Within` it may be outside everything on the way. A text is **balanced**
(`Text.IsBalanced`) if, standing alone, it is gone over from nothing to nothing. **What a bracket
encloses is balanced** (`exists_closer`), whatever follows it, and so is what remains of a balanced
text without code points at its ends that neither open nor close anything (`IsBalanced.of_append`).
In return, **a balanced text starts with a unit** (`unitEndFrom_of_passes`), so a scanner that is
sent over it again comes to an end.

Both ways, what makes it work is that the scanner does not see the accidental: what follows is seen
only by quotes at the end of the text, which a closing bracket keeps apart, and offsets are only
kept. So being balanced has no surroundings in it, although it is stated by a run.
-/

set_option autoImplicit false

namespace MemberSynthesis

namespace Opening

/-! ## Going over a text -/

/-- Reading the text, which `rest` follows, leads from the first list of openings to the second. -/
inductive Passes (rest : Text) : List Opening → Nat → Text → List Opening → Prop
  | nil {entered : List Opening} {offset : Nat} : Passes rest entered offset [] entered
  | cons {entered next last : List Opening} {offset : Nat} {c : CodePoint} {more : Text} :
    advance entered offset c (more ++ rest) = .ok next →
    Passes rest next (offset + 1) more last → Passes rest entered offset (c :: more) last

variable {rest : Text} {entered next last outer : List Opening} {offset : Nat}

namespace Passes

/-- A text in two parts is gone over part by part, and something is entered between the two. -/
theorem of_append {text more : Text} (h : Passes rest entered offset (text ++ more) last) :
    ∃ mid, Passes (more ++ rest) entered offset text mid ∧
      Passes rest mid (offset + text.length) more last := by
  induction text generalizing entered offset with
  | nil => exact ⟨entered, .nil, h⟩
  | cons c text ih =>
    rw [List.cons_append] at h
    cases h with
    | cons hstep htext =>
      obtain ⟨mid, hpasses, hmore⟩ := ih htext
      rw [List.append_assoc] at hstep
      refine ⟨mid, .cons hstep hpasses, ?_⟩
      rwa [List.length_cons, Nat.add_comm _ 1, ← Nat.add_assoc]

/-- Two parts that are gone over one after the other are gone over together. -/
theorem append {text more : Text} (h : Passes (more ++ rest) entered offset text next)
    (hmore : Passes rest next (offset + text.length) more last) :
    Passes rest entered offset (text ++ more) last := by
  induction h with
  | nil => exact hmore
  | cons hstep _ ih =>
    rw [List.length_cons, Nat.add_comm _ 1, ← Nat.add_assoc] at hmore
    rw [← List.append_assoc] at hstep
    exact .cons hstep (ih hmore)

/-- What is gone over in front of a long text is gone over in front of a shorter one. -/
theorem of_isPrefix {text shorter : Text} (h : Passes rest entered offset text last)
    (hshorter : shorter <+: rest) : Passes shorter entered offset text last := by
  induction h with
  | nil => exact .nil
  | cons hstep _ ih => exact .cons (advance_of_isPrefix hstep hshorter) ih

/-- What is gone over to the end of a text is gone over where more follows, unless that starts with
a quote. -/
theorem append_text {text : Text} (h : Passes [] entered offset text last)
    (hrest : rest.head? ≠ some (CodePoint.scalar '"')) : Passes rest entered offset text last := by
  induction h with
  | nil => exact .nil
  | cons hstep _ ih =>
    rw [List.append_nil] at hstep
    exact .cons ((advance_append_text hrest).trans hstep) ih

/-- What is gone over is gone over wherever offsets start to count. -/
theorem earlier {text : Text} (k : Nat) (h : Passes rest entered (offset + k) text last) :
    Passes rest (entered.map (earlier k)) offset text (last.map (Opening.earlier k)) := by
  induction text generalizing entered offset with
  | nil =>
    cases h
    exact .nil
  | cons c more ih =>
    cases h with
    | cons hstep hmore =>
      rw [Nat.add_right_comm] at hmore
      refine .cons ?_ (ih hmore)
      rw [advance_earlier, hstep]
      rfl

/-- **What is gone over is gone over inside a bracket**, which is not left on the way. -/
theorem within {text : Text} {kind : Bracket} {start : Nat}
    (h : Passes rest entered offset text last) :
    Within rest (entered ++ bracket kind start :: outer) offset text
      (last ++ bracket kind start :: outer) := by
  induction h with
  | nil => exact .nil
  | cons hstep _ ih => exact .cons (by simp) (advance_append hstep isOutside_bracket) ih

theorem eq_nil_of_isPlain {text : Text} (h : Passes rest [] offset text last)
    (hplain : ∀ c ∈ text, isPlain c) : last = [] := by
  induction text generalizing offset with
  | nil =>
    cases h
    rfl
  | cons c more ih =>
    cases h with
    | cons hstep hmore =>
      rw [advance_of_isPlain isOutside_nil (hplain c List.mem_cons_self)] at hstep
      cases hstep
      exact ih hmore fun d hd => hplain d (List.mem_cons_of_mem c hd)

end Passes

/-- A code point that neither opens nor closes anything leaves nothing, not even a string
literal. -/
theorem ne_nil_of_isPlain {c : CodePoint} (hne : entered ≠ []) (hc : isPlain c)
    (h : advance entered offset c rest = .ok next) : next ≠ [] := by
  have hquote : c ≠ '"' := by
    rintro rfl
    cases hc
  cases entered with
  | nil => exact absurd rfl hne
  | cons top below =>
    cases top with
    | bracket kind start =>
      rw [advance_of_isPlain isOutside_bracket hc] at h
      cases h
      exact List.cons_ne_nil _ _
    | string start =>
      simp only [advance, if_neg hquote] at h
      split at h
      · cases h
        exact List.cons_ne_nil _ _
      · split at h
        · cases h
        · cases h
          exact List.cons_ne_nil _ _
    | escape start =>
      simp only [advance] at h
      split at h
      · cases h
        exact List.cons_ne_nil _ _
      · cases h
        exact List.cons_ne_nil _ _

/-- If such code points end with nothing entered, nothing was entered before them. -/
theorem Passes.eq_nil_of_isPlain_end {text : Text} (h : Passes rest entered offset text [])
    (hplain : ∀ c ∈ text, isPlain c) : entered = [] := by
  induction text generalizing entered offset with
  | nil =>
    cases h
    rfl
  | cons c more ih =>
    cases h with
    | cons hstep hmore =>
      have hnext := ih hmore fun d hd => hplain d (List.mem_cons_of_mem c hd)
      by_cases hnil : entered = []
      · exact hnil
      · exact absurd hnext (ne_nil_of_isPlain hnil (hplain c List.mem_cons_self) hstep)

/-! ## Brackets and what they enclose

A bracket that is entered stays on the stack until it is closed, and what is above it in the
meantime is gone over as if it were not there. -/

/-- **A bracket that is left was closed**, and what it enclosed is gone over by itself. After the
closing bracket the scanner goes on with what lay below, if there is anything. -/
theorem exists_closer {kind : Bracket} {start last : Nat} {text : Text}
    (h : unitEndFrom (entered ++ bracket kind start :: outer) offset text = .ok last) :
    ∃ inner after, text = inner ++ CodePoint.scalar kind.closer :: after ∧
      Passes (CodePoint.scalar kind.closer :: after) entered offset inner [] ∧
      (outer = [] ∧ last = offset + inner.length ∨
        outer ≠ [] ∧ unitEndFrom outer (offset + inner.length + 1) after = .ok last) := by
  induction text generalizing entered offset with
  | nil => cases h
  | cons c rest ih =>
    rw [unitEndFrom] at h
    obtain ⟨next, hstep, hlast⟩ := Reading.bind_eq_ok.1 h
    rcases closes_or_keeps_of_advance hstep with ⟨rfl, rfl, rfl⟩ | ⟨still, hstill, rfl⟩
    · refine ⟨[], rest, rfl, .nil, ?_⟩
      cases next with
      | nil =>
        cases hlast
        exact .inl ⟨rfl, rfl⟩
      | cons top below => exact .inr ⟨List.cons_ne_nil _ _, hlast⟩
    · rw [if_neg (by simp)] at hlast
      obtain ⟨inner, after, rfl, hpasses, houter⟩ := ih hlast
      refine ⟨c :: inner, after, rfl, .cons hstill hpasses, ?_⟩
      rw [List.length_cons, Nat.add_comm inner.length 1, ← Nat.add_assoc]
      exact houter

/-- **A bracket around what is gone over makes it a group.** -/
theorem isGroup_of_passes {kind : Bracket} {inner : Text}
    (h : Passes (CodePoint.scalar kind.closer :: rest) [] (offset + 1) inner []) :
    IsGroup rest [] offset kind.opener inner kind.closer := by
  have hopener : advance [] offset kind.opener (inner ++ CodePoint.scalar kind.closer :: rest) =
      .ok [bracket kind offset] := by
    cases kind <;> rfl
  have hcloser : ∀ k, advance [bracket kind offset] k kind.closer rest = .ok [] := by
    intro k
    cases kind <;> rfl
  exact ⟨bracket kind offset, hopener, h.within, hcloser _⟩

theorem Within.passes {text : Text} (h : Within rest entered offset text last) :
    Passes rest entered offset text last := by
  induction h with
  | nil => exact .nil
  | cons _ hstep _ ih => exact .cons hstep ih

theorem IsGroup.passes {first final : CodePoint} {inner : Text}
    (h : IsGroup rest outer offset first inner final) :
    Passes rest outer offset (first :: (inner ++ [final])) outer := by
  obtain ⟨opening, hfirst, hinner, hfinal⟩ := h
  refine .cons ?_ (.append hinner.passes (.cons hfinal .nil))
  rw [List.append_assoc]
  exact hfirst

/-- **A text that is gone over to its end starts with a unit.** The end of the text is the end of
one at the latest, as nothing is entered there. -/
theorem unitEndFrom_of_passes {text : Text} (h : Passes rest entered offset text [])
    (hne : text ≠ []) : ∃ last, unitEndFrom entered offset (text ++ rest) = .ok last := by
  induction text generalizing entered offset with
  | nil => exact absurd rfl hne
  | cons c more ih =>
    cases h with
    | @cons _ next _ _ _ _ hstep hmore =>
      rw [List.cons_append, unitEndFrom, hstep]
      show ∃ last, (if next.isEmpty then _ else unitEndFrom next (offset + 1) (more ++ rest)) = _
      by_cases hempty : next.isEmpty
      · exact ⟨offset, if_pos hempty⟩
      · rw [if_neg hempty]
        apply ih hmore
        rintro rfl
        cases hmore
        exact hempty rfl

/-- A unit ends within the text. -/
theorem bounds_of_unitEndFrom {text : Text} {k : Nat}
    (h : unitEndFrom entered offset text = .ok k) :
    offset ≤ k ∧ k < offset + text.length := by
  induction text generalizing entered offset with
  | nil => cases h
  | cons c more ih =>
    rw [unitEndFrom] at h
    obtain ⟨next, _, hnext⟩ := Reading.bind_eq_ok.1 h
    rw [List.length_cons]
    split at hnext
    · cases hnext
      omega
    · have hmore := ih hnext
      omega

end Opening

namespace Text

theorem lt_length_of_unitEnd {text : Text} {last : Nat} (h : unitEnd text = .ok last) :
    last < text.length := by
  have hlast := (Opening.bounds_of_unitEndFrom h).2
  rwa [Nat.zero_add] at hlast

/-- The inside of a text is what is left without its ends, if the unit that it starts with ends
it. -/
theorem inside?_of_unitEnd {text : Text} {last : Nat} (h : unitEnd text = .ok last) :
    inside? text = .ok (if last + 1 = text.length then some (text.drop 1).dropLast else none) := by
  rw [inside?, h]
  rfl

/-- If the first unit is longer than a code point, the text is this unit, with something inside, or
it goes on after it. -/
theorem inside?_cases {c : CodePoint} {rest : Text} {last : Nat}
    (h : unitEnd (c :: rest) = .ok last) (hlast : 0 < last) :
    inside? (c :: rest) = .ok none ∨
      ∃ inner final, rest = inner ++ [final] ∧ last = inner.length + 1 ∧
        inside? (c :: rest) = .ok (some inner) := by
  rw [inside?_of_unitEnd h, List.drop_succ_cons, List.drop_zero]
  split
  · rename_i hwhole
    rw [List.length_cons] at hwhole
    have hne : rest ≠ [] := by
      intro hnil
      rw [hnil, List.length_nil] at hwhole
      omega
    refine .inr ⟨rest.dropLast, rest.getLast hne, (List.dropLast_concat_getLast hne).symm, ?_, rfl⟩
    rw [List.length_dropLast]
    omega
  · exact .inl rfl

/-- The scanner goes over the text, when it stands alone, from nothing entered to nothing entered:
all brackets match, and all strings are closed. -/
def IsBalanced (text : Text) : Prop := Opening.Passes [] [] 0 text []

/-- What is gone over from nothing to nothing anywhere is balanced by itself. -/
theorem isBalanced_of_passes {rest text : Text} {offset : Nat}
    (h : Opening.Passes rest [] offset text []) : text.IsBalanced := by
  have halone : Opening.Passes [] [] (0 + offset) text [] := by
    rw [Nat.zero_add]
    exact h.of_isPrefix List.nil_prefix
  exact halone.earlier offset

/-- Code points that neither open nor close anything can be taken off both ends. -/
theorem IsBalanced.of_append {before text after : Text} (h : IsBalanced (before ++ (text ++ after)))
    (hbefore : ∀ c ∈ before, Opening.isPlain c) (hafter : ∀ c ∈ after, Opening.isPlain c) :
    text.IsBalanced := by
  obtain ⟨mid, hstart, hmore⟩ := Opening.Passes.of_append h
  rw [hstart.eq_nil_of_isPlain hbefore] at hmore
  obtain ⟨last, htext, hend⟩ := hmore.of_append
  rw [hend.eq_nil_of_isPlain_end hafter] at htext
  exact isBalanced_of_passes htext

theorem unitEnd_of_isBalanced {text : Text} (h : text.IsBalanced) (hne : text ≠ []) :
    ∃ last, unitEnd text = .ok last := by
  have hend := Opening.unitEndFrom_of_passes h hne
  rwa [List.append_nil] at hend

/-- **A unit that starts with a bracket ends with the closing one**, and the text between them is
balanced. -/
theorem exists_closer_of_unitEnd {kind : Bracket} {rest : Text} {last : Nat}
    (h : unitEnd (CodePoint.scalar kind.opener :: rest) = .ok last) :
    ∃ inner after, rest = inner ++ CodePoint.scalar kind.closer :: after ∧ inner.IsBalanced ∧
      last = inner.length + 1 := by
  have hopened : Opening.unitEndFrom ([] ++ [.bracket kind 0]) 1 rest = .ok last := by
    cases kind <;> exact h
  obtain ⟨inner, after, hrest, hpasses, ⟨_, hlast⟩ | ⟨hne, _⟩⟩ := Opening.exists_closer hopened
  · exact ⟨inner, after, hrest, isBalanced_of_passes hpasses, hlast.trans (Nat.add_comm 1 _)⟩
  · exact absurd rfl hne

end Text

end MemberSynthesis
