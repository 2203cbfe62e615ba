import Mathlib.Data.List.Forall2

/-!
# Outcomes

Reading and interpreting are written as steps that may fail, one after the other, in the monad of
`Except`. Two facts take such a text of steps apart, whatever the failures are: a sequence succeeds
just when each step does (`bind_eq_ok_iff`), and a step done for every element of a list succeeds
just when it does so on each element (`mapM_eq_ok_iff`). If it does not, the first element on which
it fails decides (`mapM_eq_error_iff`), and `IsFirst` is what being the first one means, for this
step and for every other scan of a list.

The lemmas are equivalences, so that a function is inverted by rewriting: what is known of the
result is handed on to the steps it came from, and no proof unfolds a `do` block or splits on an
outcome by itself. The first failure matters because it is what the author of a source text gets to
see: **which fault is reported among several is a property of the order of the steps**, and
`IsFirst` states that order as a property of the list.

Nothing here is about texts. The lemmas on `List.Forall₂` are there because that is how a list and
what was read from it correspond.
-/

set_option autoImplicit false

namespace MemberSynthesis

namespace Outcome

variable {ε α β : Type}

theorem exists_of_mem_of_forall₂ {p : α → β → Prop} {xs : List α} {ys : List β}
    (h : List.Forall₂ p xs ys) : ∀ y ∈ ys, ∃ x ∈ xs, p x y := by
  induction h with
  | nil => exact fun y hy => absurd hy List.not_mem_nil
  | @cons x y _ _ hxy _ ih =>
    intro other hother
    rcases List.mem_cons.1 hother with rfl | hother
    · exact ⟨x, List.mem_cons_self, hxy⟩
    · obtain ⟨x', hx', hother⟩ := ih other hother
      exact ⟨x', List.mem_cons_of_mem x hx', hother⟩

/-- What corresponds to a list that is cut at an element is cut alike. So the reading of a list is
taken apart where its text is. -/
theorem exists_of_forall₂_append {p : α → β → Prop} {front : List α} {x : α} {back : List α}
    {ys : List β} (h : List.Forall₂ p (front ++ x :: back) ys) :
    ∃ front' y back', ys = front' ++ y :: back' ∧ List.Forall₂ p front front' ∧ p x y ∧
      List.Forall₂ p back back' := by
  induction front generalizing ys with
  | nil =>
    cases h with
    | cons hxy hback => exact ⟨[], _, _, rfl, .nil, hxy, hback⟩
  | cons first front ih =>
    cases h with
    | cons hfirst hrest =>
      obtain ⟨front', y, back', rfl, hfront, hxy, hback⟩ := ih hrest
      exact ⟨_ :: front', y, back', rfl, .cons hfirst hfront, hxy, hback⟩

theorem bind_eq_ok_iff {first : Except ε α} {next : α → Except ε β} {b : β} :
    (first >>= next) = .ok b ↔ ∃ a, first = .ok a ∧ next a = .ok b := by
  cases first with
  | ok a => simp [bind, Except.bind]
  | error e => simp [bind, Except.bind]

theorem map_eq_ok_iff {first : Except ε α} {change : α → β} {b : β} :
    first.map change = .ok b ↔ ∃ a, first = .ok a ∧ change a = b := by
  cases first <;> simp [Except.map]

theorem bind_eq_error_iff {first : Except ε α} {next : α → Except ε β} {e : ε} :
    (first >>= next) = .error e ↔
      first = .error e ∨ ∃ a, first = .ok a ∧ next a = .error e := by
  cases first with
  | ok a => simp [bind, Except.bind]
  | error e => simp [bind, Except.bind]

/-- **A step done for every element succeeds just when it does so on each**, and what it gives
corresponds to the elements one by one, in the same order and number. -/
theorem mapM_eq_ok_iff {f : α → Except ε β} {xs : List α} {ys : List β} :
    xs.mapM f = .ok ys ↔ List.Forall₂ (fun x y => f x = .ok y) xs ys := by
  induction xs generalizing ys with
  | nil => cases ys <;> simp [pure, Except.pure]
  | cons x xs ih =>
    rw [List.mapM_cons, bind_eq_ok_iff]
    constructor
    · rintro ⟨y, hy, h⟩
      obtain ⟨more, hmore, h⟩ := bind_eq_ok_iff.1 h
      cases h
      exact .cons hy (ih.1 hmore)
    · intro h
      cases h with
      | cons hy hmore => exact ⟨_, hy, bind_eq_ok_iff.2 ⟨_, ih.2 hmore, rfl⟩⟩

/-- The element is the first one in the list of which `p` holds, given the elements before it. The
condition may depend on these, as it does for an element that must differ from all earlier ones. -/
def IsFirst (p : List α → α → Prop) (xs before : List α) (x : α) : Prop :=
  (∃ after, xs = before ++ x :: after) ∧ p before x ∧
    ∀ earlier y between, before = earlier ++ y :: between → ¬ p earlier y

theorem not_isFirst_nil {p : List α → α → Prop} {before : List α} {x : α} :
    ¬ IsFirst p [] before x := by
  rintro ⟨⟨after, h⟩, _⟩
  cases before <;> cases h

/-- The first one is at the head, or it is the first one after that, and then the head is among the
elements before it. The recursion of every scan that stops at the first hit. -/
theorem isFirst_cons_iff {p : List α → α → Prop} {xs before : List α} {x y : α} :
    IsFirst p (x :: xs) before y ↔
      (before = [] ∧ y = x ∧ p [] x) ∨
        (¬ p [] x ∧ ∃ more, before = x :: more ∧
          IsFirst (fun earlier => p (x :: earlier)) xs more y) := by
  constructor
  · rintro ⟨⟨after, hxs⟩, hp, hearlier⟩
    cases before with
    | nil =>
      cases hxs
      exact .inl ⟨rfl, rfl, hp⟩
    | cons b more =>
      cases hxs
      refine .inr ⟨hearlier [] x more rfl, more, rfl, ⟨after, rfl⟩, hp, ?_⟩
      rintro earlier z between rfl
      exact hearlier (x :: earlier) z between rfl
  · rintro (⟨rfl, rfl, hp⟩ | ⟨hx, more, rfl, ⟨after, rfl⟩, hp, hearlier⟩)
    · refine ⟨⟨xs, rfl⟩, hp, ?_⟩
      intro earlier z between h
      cases earlier <;> cases h
    · refine ⟨⟨after, rfl⟩, hp, ?_⟩
      intro earlier z between h
      cases earlier with
      | nil =>
        cases h
        exact hx
      | cons w earlier =>
        cases h
        exact hearlier earlier z between rfl

/-- **A step done for every element fails as it does on the first element on which it fails.** On
all elements before that one it succeeds, and those behind it have no say. -/
theorem mapM_eq_error_iff {f : α → Except ε β} {xs : List α} {e : ε} :
    xs.mapM f = .error e ↔
      ∃ before x, IsFirst (fun _ y => ∃ e', f y = .error e') xs before x ∧ f x = .error e := by
  induction xs with
  | nil =>
    constructor
    · intro h
      cases h
    · rintro ⟨before, x, h, _⟩
      exact absurd h not_isFirst_nil
  | cons x xs ih =>
    rw [List.mapM_cons, bind_eq_error_iff]
    simp only [isFirst_cons_iff]
    cases hx : f x with
    -- The first element fails: nothing is asked of the others.
    | error e' =>
      constructor
      · rintro (h | ⟨y, h, _⟩)
        · exact ⟨[], x, .inl ⟨rfl, rfl, e', rfl⟩, hx.trans h⟩
        · cases h
      · rintro ⟨before, y, ⟨rfl, rfl, _⟩ | ⟨h, _⟩, hy⟩
        · exact .inl (hx.symm.trans hy)
        · exact absurd ⟨e', rfl⟩ h
    | ok y =>
      -- It does not, and the first one that fails is among the others.
      have hnone : ¬ ∃ e', (.ok y : Except ε β) = .error e' := by
        rintro ⟨e', h⟩
        cases h
      constructor
      · rintro (h | ⟨y', h, hmore⟩)
        · cases h
        · rcases bind_eq_error_iff.1 hmore with hmore | ⟨more, _, hmore⟩
          · obtain ⟨before, z, hfirst, hz⟩ := ih.1 hmore
            exact ⟨x :: before, z, .inr ⟨hnone, before, rfl, hfirst⟩, hz⟩
          · cases hmore
      · rintro ⟨before, z, ⟨_, _, h⟩ | ⟨_, more, rfl, hfirst⟩, hz⟩
        · exact absurd h hnone
        · exact .inr ⟨y, rfl, bind_eq_error_iff.2 (.inl (ih.2 ⟨more, z, hfirst, hz⟩))⟩

/-- If the whole fails, so does the step for one of the elements, and in the same way. The weaker
form, for faults whose place is all that matters. -/
theorem exists_of_mapM_eq_error {f : α → Except ε β} {xs : List α} {e : ε}
    (h : xs.mapM f = .error e) : ∃ x ∈ xs, f x = .error e := by
  obtain ⟨before, x, ⟨⟨after, rfl⟩, _⟩, hx⟩ := mapM_eq_error_iff.1 h
  exact ⟨x, List.mem_append_right before List.mem_cons_self, hx⟩

/-- What was written for each element of a list is read back element by element, if the reader knows
what the writer meant. The form in which readers of generated lines use it. -/
theorem mapM_map_eq_some {γ : Type} {write : α → β} {read : β → Option γ} {meant : α → γ}
    {xs : List α} (h : ∀ x ∈ xs, read (write x) = some (meant x)) :
    (xs.map write).mapM read = some (xs.map meant) := by
  induction xs with
  | nil => rfl
  | cons x more ih =>
    have hmore := ih fun other hother => h other (List.mem_cons_of_mem x hother)
    rw [List.map_cons, List.mapM_cons, h x List.mem_cons_self, hmore]
    rfl

end Outcome

end MemberSynthesis
