import MemberSynthesis.Proofs.Source.InPlaceAgreement

/-!
# The reader makes progress

The searches and the readers that go over a text in place call each other, and each goes on from an
offset that another one has come to. **All of them end on every text**, with no more steps than
there are code points, and one or two more; and what they come to lies further on, and in the text:
behind the quotes of a literal, at the bracket that closes another one, behind the attributes that
were passed over. An escaping backslash at the end of the text leads past it, but no search succeeds
from there.

What had to be proved for this was proved beside each reader, where its measure is known. Here the
facts are put together in one form: a number of steps that is enough for every text of that length,
an outcome that more steps do not change, and a property of what a success gives (`Run.EndsIn`). The
statement does not depend on how the steps are counted, since any larger number will do.

That an outcome exists is said also where it is not said which one it is. For splitting and for
expressions nothing is asked of the stretch: they may be sent anywhere, and still end. Where a
stretch is the inside of brackets, other modules say what comes out.
-/

set_option autoImplicit false

namespace MemberSynthesis

/-- With more steps than `enough` the run ends with the outcome; and if this is a success, then with
a result of this kind. -/
def Run.EndsIn {α : Type} (enough : Nat) (run : Nat → Run α) (outcome : Reading α) (P : α → Prop) :
    Prop :=
  Run.EndsBy enough run outcome ∧ ∀ a, outcome = .ok a → P a

namespace InPlace

/-- A string literal has both its quotes in the text, so that its end is at least two further on. -/
theorem literalEnd_endsIn (text : Text) (i : Nat) :
    Run.EndsIn text.length (literalEnd text i) (text.skipString i) fun e =>
      i + 2 ≤ e ∧ e ≤ text.length ∧ text[e - 1]? = some (CodePoint.scalar '"') := by
  refine ⟨(literalEnd_endsBy text i).mono (Nat.sub_le _ _), fun e he => ?_⟩
  obtain ⟨inside, after, hdrop, rfl, _⟩ := Text.exists_of_skipString he
  have hquote : text[i + 1 + inside.length]? = some (CodePoint.scalar '"') := by
    rw [← List.head?_drop, (Text.drop_eq_append_iff.1 hdrop).2, List.head?_cons]
  have hlt := (List.getElem?_eq_some_iff.1 hquote).1
  exact ⟨by omega, hlt, hquote⟩

/-- A closing bracket stands in the text, behind where the search for it started, whatever stands
there. -/
theorem exists_closer_endsIn (text : Text) (atEnd : ReadFault) (i : Nat) :
    ∃ outcome, Run.EndsIn text.length (closer text atEnd i) outcome fun j =>
      i < j ∧ j < text.length := by
  obtain ⟨outcome, hends, hfirst⟩ := exists_closer_endsBy text atEnd i
  refine ⟨outcome, hends.mono (Nat.sub_le _ _), fun j hj => ?_⟩
  obtain ⟨k, hgroup⟩ := hfirst j hj
  obtain ⟨kind, hopener⟩ := hgroup.opener
  obtain ⟨hlt, hcloser, _⟩ := (Text.closerOf_eq_ok_iff hopener).1 hgroup.closer
  exact ⟨Nat.lt_of_le_of_lt hgroup.le hlt, (List.getElem?_eq_some_iff.1 hcloser).1⟩

/-- Attributes are passed over within the text. From an offset behind its end, the reader stays
where it is. -/
theorem pastAttributes_endsIn (text : Text) (i : Nat) :
    Run.EndsIn text.length (pastAttributes text i)
      ((Reading.moved i (Attribute.skip (text.drop i))).map (i + ·)) fun next =>
        i ≤ text.length → i ≤ next ∧ next ≤ text.length := by
  refine ⟨(pastAttributes_endsBy text i).mono (Nat.sub_le _ _), fun next hnext hi => ?_⟩
  obtain ⟨skipped, hskipped, rfl⟩ := Outcome.map_eq_ok_iff.1 hnext
  have hle := (Attribute.isPlacedIn_skip (text.drop i)).2 skipped (Reading.moved_eq_ok.1 hskipped)
  rw [List.length_drop] at hle
  omega

/-- Nothing is split off outside what is split. -/
theorem exists_split_endsIn (text : Text) (start stop : Nat) :
    ∃ outcome, Run.EndsIn text.length (split text start stop) outcome fun spans => ∀ span ∈ spans,
      start ≤ span.start ∧ span.start ≤ span.stop ∧ span.stop ≤ stop := by
  obtain ⟨outcome, hends, hwithin⟩ := exists_split_endsBy text start stop
  exact ⟨outcome, hends.mono (Nat.sub_le _ _), hwithin⟩

/-- **Only inside an expression other ones are read.** First it is told what the expression is; and
if it is an array, then its elements are read, in stretches that start behind its first code point
and end before its last. -/
theorem exists_elements_endsBy (text : Text) (start stop : Nat) :
    ∃ told element, Run.EndsBy text.length (form text start stop) told ∧
      Run.EndsBy (text.length + 1) (expression text start stop) (told >>= Form.expression element) ∧
      ∀ spans, told = .ok (.array spans) → ∀ span ∈ spans,
        (start < span.start ∧ span.start ≤ span.stop ∧ span.stop < stop) ∧
          Run.EndsBy text.length (expression text span.start span.stop) (element span) := by
  obtain ⟨told, htold, hinside⟩ := exists_form_endsBy text start stop
  obtain ⟨element, helement⟩ := Classical.skolem.1 fun span : Span =>
    exists_expression_endsBy text span.start span.stop
  have hshorter : ∀ spans, told = .ok (.array spans) → ∀ span ∈ spans,
      Run.EndsBy (text.length - start) (expression text span.start span.stop) (element span) := by
    intro spans hspans span hspan
    obtain ⟨hlt, hwithin⟩ := hinside spans hspans
    have hless := (hwithin span hspan).1
    exact (helement span).mono (by omega)
  have hle : text.length - start ≤ text.length := Nat.sub_le _ _
  refine ⟨told, element, htold.mono hle, (expression_endsBy htold hshorter).mono
    (Nat.succ_le_succ hle),
    fun spans hspans span hspan => ⟨(hinside spans hspans).2 span hspan, ?_⟩⟩
  exact (hshorter spans hspans span hspan).mono hle

/-- **The reader ends on every text, and from every offset, and it makes progress.** The two
searches, the readers of attributes and of string literals, splitting and the reader of expressions
each end with an outcome. A string literal that is found has both its quotes in the text, and a
closing bracket stands in it, behind where the search started; attributes are passed over within the
text; and the expressions that are read in another one stand in strictly shorter stretches inside
it. Together, they read a snippet as it is read piece by piece. -/
theorem ends_and_progresses (text : Text) :
    (∀ i, Run.EndsIn text.length (literalEnd text i) (text.skipString i) fun e =>
      i + 2 ≤ e ∧ e ≤ text.length ∧ text[e - 1]? = some (CodePoint.scalar '"')) ∧
    (∀ atEnd i, ∃ outcome, Run.EndsIn text.length (closer text atEnd i) outcome fun j =>
      i < j ∧ j < text.length) ∧
    (∀ (kind : Bracket) i, text[i]? = some (CodePoint.scalar kind.opener) →
      Run.EndsBy text.length (closer text ⟨.unclosed kind, i⟩ i) (text.closerOf i)) ∧
    (∀ i, Run.EndsIn text.length (pastAttributes text i)
      ((Reading.moved i (Attribute.skip (text.drop i))).map (i + ·)) fun next =>
        i ≤ text.length → i ≤ next ∧ next ≤ text.length) ∧
    (∀ start stop, Run.EndsBy text.length (string text start stop) (text.decode start stop)) ∧
    (∀ start stop, ∃ outcome, Run.EndsIn text.length (split text start stop) outcome fun spans =>
      ∀ span ∈ spans, start ≤ span.start ∧ span.start ≤ span.stop ∧ span.stop ≤ stop) ∧
    (∀ start stop, ∃ told element, Run.EndsBy text.length (form text start stop) told ∧
      Run.EndsBy (text.length + 1) (expression text start stop) (told >>= Form.expression element) ∧
      ∀ spans, told = .ok (.array spans) → ∀ span ∈ spans,
        (start < span.start ∧ span.start ≤ span.stop ∧ span.stop < stop) ∧
          Run.EndsBy text.length (expression text span.start span.stop) (element span)) ∧
    ∀ name, Run.EndsBy text.length (snippet name text) (Snippet.read name text) :=
  ⟨literalEnd_endsIn text, exists_closer_endsIn text,
    fun _ _ hopener => (closer_endsBy hopener).mono (Nat.sub_le _ _), pastAttributes_endsIn text,
    fun start stop => (string_endsBy text start stop).mono (Nat.sub_le _ _),
      exists_split_endsIn text,
    exists_elements_endsBy text, fun name => snippet_endsBy name text⟩

end InPlace

end MemberSynthesis
