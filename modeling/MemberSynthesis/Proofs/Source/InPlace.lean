import Mathlib.Data.List.DropRight
import MemberSynthesis.Proofs.Source.Faults
import MemberSynthesis.Proofs.Source.Splitting

/-!
# Reading in place

Nothing has to be cut out of a text to be read. The readers of this module go over the whole text,
with offsets for the ends of what they read: attributes are passed over, a string literal is decoded
up to its closing quote, and an array is read in the stretches that its inside is split into. Each
goes on where a search has come to, and an expression is read again for every element. So the way
they are written does not say that they end, either, and each is allowed a number of steps (`Run`).

The steps are there for the definition and not a limit of the readers: a run with enough of them
comes to the same as with any more, and how deeply calls may nest, the recursion limit of an
interpreter, is no part of the model.

**They all end**, whatever stands in the text and wherever they start.

* Behind an attribute there is less text left (`pastAttributes_endsBy`).
* A part of a string literal takes at least one code point, and the literal ends in the text
  (`stringFrom_endsBy`).
* The elements of an array stand behind its first code point and before its last
  (`exists_form_endsBy`), so that an expression is read again only in a shorter stretch
  (`exists_expression_endsBy`).

Only the first two come with what the run comes to, which is what the readers of pieces say. For
expressions, that is the subject of the module after this one: on any stretch a reader may be sent
to, it ends, but it reads a piece only where a piece stands.
-/

set_option autoImplicit false

namespace MemberSynthesis

/-- An offset in a piece of a piece, as an offset in the whole text. -/
theorem Reading.map_moved_add (i j : Nat) (r : Reading Nat) :
    (r.moved (i + j)).map (i + j + ·) =
      (Reading.moved i ((r.moved j).map (j + ·))).map (i + ·) := by
  cases r <;> simp [moved, Except.map, Nat.add_assoc]

namespace InPlace

/-! ## The readers

Written as they go over the text, with the offsets they use. A reader that calls itself or a search
gives one step less to the call, and has no outcome when there are none left. -/

/-- The offset of what follows the blanks at `i`, which is `i` itself if none stand there. -/
def pastBlanks (text : Text) (i : Nat) : Nat := i + Text.leadingBlanks (text.drop i)

/-- Passes over the attributes from `i` on, where no blank stands: a name, blanks, an argument list
if there is one, and blanks again. -/
def pastAttributesFrom (text : Text) : Nat → Nat → Run Nat
  | _, 0 => Run.exhausted
  | i, steps + 1 =>
    match Attribute.splitName? (text.drop i) with
    | none => return i
    | some (name, _) =>
      let next := pastBlanks text (i + 1 + name.length)
      if text[next]? = some (CodePoint.scalar '(') then do
        let close ← closer text ⟨.unclosed .round, next⟩ next steps
        pastAttributesFrom text (pastBlanks text (close + 1)) steps
      else pastAttributesFrom text next steps

/-- Passes over the blanks and attributes from `i` on. -/
def pastAttributes (text : Text) (i steps : Nat) : Run Nat :=
  pastAttributesFrom text (pastBlanks text i) steps

/-- Reads what stands at `i` in the string literal whose closing quote stands at `stop`. For an
interpolation, its end is searched in place. -/
def partAt (text : Text) (stop i steps : Nat) : Run (StringContent × Nat) :=
  if text[i]? = some (CodePoint.scalar '\\') ∧ text[i + 1]? = some (CodePoint.scalar '(') then do
    let close ← closer text ⟨.unclosed .round, i + 1⟩ (i + 1) steps
    return (⟨Span.slice text ⟨i, close + 1⟩, true⟩, close + 1)
  else Run.ended (text.decodeAt stop i)

/-- Reads the string literal whose closing quote stands at `stop` from `i` on, part by part. The
second result is where the cursor ends. -/
def stringFrom (text : Text) (stop : Nat) : Nat → Nat → Run (StringContent × Nat)
  | _, 0 => Run.exhausted
  | i, steps + 1 =>
    if i < stop then do
      let (part, next) ← partAt text stop i steps
      let (content, cursor) ← stringFrom text stop next steps
      return (content.prepend part.value part.interpolated, cursor)
    else return (⟨[], false⟩, i)

/-- Reads the string literal that reaches from `start` up to `stop`. -/
def string (text : Text) (start stop steps : Nat) : Run (StringContent × Nat) :=
  stringFrom text (stop - 1) (start + 1) steps

/-- The offset right after what stands before the blanks at the end of a stretch. A stretch that
reaches past the text would be read past its end. -/
def beforeBlanks (text : Text) (start stop : Nat) : Reading Nat :=
  if stop ≤ start then .ok stop
  else if text.length < stop then .error ⟨.pastEnd, stop - 1⟩
  else .ok (start + (Span.slice text ⟨start, stop⟩).trimEnd.length)

/-- What an expression is, as far as it can be told without reading the elements of an array. -/
inductive Form where
  | string (content : StringContent)
  /-- An array, the elements of which stand in these stretches. -/
  | array (elements : List Span)
  | raw (text : Text)

/-- Tells what the expression is that starts with the code point `c` at `first` and ends at `last`.
If something follows the quotes or brackets it starts with, it is of no other form. -/
def formOf (text : Text) (first last : Nat) (c : CodePoint) (steps : Nat) : Run Form :=
  if c = '"' then do
    let e ← literalEnd text first steps
    if e = last then do
      let (content, _) ← string text first last steps
      return .string content
    else return .raw (Span.slice text ⟨first, last⟩)
  else if c = '[' then do
    let close ← closer text ⟨.unclosed .square, first⟩ first steps
    if close + 1 = last then do
      let elements ← split text (first + 1) close steps
      return .array elements
    else return .raw (Span.slice text ⟨first, last⟩)
  else return .raw (Span.slice text ⟨first, last⟩)

/-- Tells what the expression in a stretch is, blanks around it ignored. Where nothing but blanks
stands, an expression is missing. -/
def form (text : Text) (start stop steps : Nat) : Run Form := do
  let last ← Run.ended (beforeBlanks text (pastBlanks text start) stop)
  if pastBlanks text start = last then throw ⟨.noExpression, last⟩
  else
    match text[pastBlanks text start]? with
    | none => throw ⟨.pastEnd, pastBlanks text start⟩
    | some c => formOf text (pastBlanks text start) last c steps

/-- The expression, when the elements of an array are read so. For any monad, as the elements are
read in steps here and at once elsewhere. -/
def Form.expression {m : Type → Type} [Monad m] (element : Span → m Expression) :
    Form → m Expression
  | .string content => return .string content.value content.interpolated
  | .array elements => return .array (← elements.mapM element)
  | .raw text => return .raw text

/-- Reads the expression in a stretch: tells what it is, and reads the elements of an array in the
stretches they stand in. -/
def expression (text : Text) : Nat → Nat → Nat → Run Expression
  | _, _, 0 => Run.exhausted
  | start, stop, steps + 1 => do
    let found ← form text start stop steps
    found.expression fun span => expression text span.start span.stop steps

/-- Reads the argument in a stretch. The label is cut off from the text of the stretch, and its
length is where the value starts. -/
def argument (text : Text) (start stop steps : Nat) : Run Argument :=
  match Argument.splitLabel? (Span.slice text ⟨start, stop⟩) with
  | none => do
    let found ← expression text start stop steps
    return ⟨none, found⟩
  | some (label, value) => do
    let labelled := (Span.slice text ⟨start, stop⟩).length - value.length
    let found ← expression text (start + labelled) stop steps
    return ⟨some label, found⟩

/-- Reads the argument list at `i`, if there is one, and gives the offset behind it. -/
def argumentList (text : Text) (i steps : Nat) : Run (List Argument × Nat) :=
  if text[i]? = some (CodePoint.scalar '(') then do
    let close ← closer text ⟨.unclosed .round, i⟩ i steps
    let spans ← split text (i + 1) close steps
    let arguments ← spans.mapM fun span => argument text span.start span.stop steps
    return (arguments, close + 1)
  else return ([], i)

/-- Reads the first mention of the attribute `name` and the declaration after it. -/
def snippet (name text : Text) (steps : Nat) : Run Snippet :=
  match Attribute.findMention? name text with
  | none => throw ⟨.noDirective name, 0⟩
  | some offset => do
    let (arguments, i) ← argumentList text (pastBlanks text (offset + 1 + name.length)) steps
    let next ← pastAttributes text i steps
    match Declaration.ofHead? (text.drop next) with
    | none => throw ⟨.noDeclaration, next⟩
    | some declaration => return ⟨⟨name, arguments⟩, declaration⟩

variable {text : Text} {i start stop : Nat}

/-! ## Attributes

Passing over attributes in place and in a text of its own are the same recursion, one with an offset
and the other with what is left of the text. They agree at each attribute, because the search for
the bracket that closes an argument list agrees with the scanner. -/

theorem drop_pastBlanks (text : Text) (i : Nat) :
    text.drop (pastBlanks text i) = Text.trimStart (text.drop i) := by
  rw [pastBlanks, ← List.drop_drop, Text.drop_leadingBlanks]

/-- Behind blanks there are none. -/
theorem pastBlanks_pastBlanks (text : Text) (i : Nat) :
    pastBlanks text (pastBlanks text i) = pastBlanks text i := by
  have hle := Text.leadingBlanks_le (text.drop (pastBlanks text i))
  have hsame := congrArg List.length (Text.drop_leadingBlanks (text.drop (pastBlanks text i)))
  rw [List.length_drop, drop_pastBlanks, Text.trimStart, Text.trimStart,
    List.dropWhile_idempotent] at hsame
  rw [drop_pastBlanks, Text.trimStart] at hle
  rw [pastBlanks, drop_pastBlanks, Text.trimStart]
  omega

theorem eq_of_splitName? {name rest : Text} (h : Attribute.splitName? text = some (name, rest)) :
    text = CodePoint.scalar '@' :: (name ++ rest) := by
  cases text with
  | nil => cases h
  | cons c more =>
    rw [Attribute.splitName?] at h
    split at h
    · rename_i hc
      rw [hc, (Identifier.append_of_split? h).1]
    · cases h

/-- The cursor stands where the text behind the name and the blanks after it starts, however that
place is counted. -/
theorem pastBlanks_name {name rest : Text}
    (h : Attribute.splitName? (Text.trimStart (text.drop i)) = some (name, rest)) :
    pastBlanks text (pastBlanks text i + 1 + name.length) =
      i + ((text.drop i).length - rest.length + rest.leadingBlanks) := by
  have htrim := eq_of_splitName? h
  have hrest : text.drop (pastBlanks text i + 1 + name.length) = rest := by
    rw [← List.drop_drop, ← List.drop_drop, drop_pastBlanks, htrim, List.drop_succ_cons,
      List.drop_zero, List.drop_left]
  have hlength := congrArg List.length (Text.takeWhile_append_trimStart (text.drop i))
  rw [List.length_append, htrim, List.length_cons, List.length_append] at hlength
  rw [pastBlanks, hrest, pastBlanks, Text.leadingBlanks]
  omega

/-- **Passing over attributes ends**, with what passing over those of the text from `i` on comes to.
The measure is what is left of the text. -/
theorem pastAttributes_endsBy (text : Text) (i : Nat) :
    Run.EndsBy (text.length - i) (pastAttributes text i)
      ((Reading.moved i (Attribute.skip (text.drop i))).map (i + ·)) := by
  -- By induction on the length of the text that is left.
  induction hlength : text.length - i using Nat.strong_induction_on generalizing i with
  | _ length ih =>
    subst hlength
    intro steps hsteps
    obtain ⟨fewer, rfl⟩ : ∃ fewer, steps = fewer + 1 := ⟨steps - 1, by omega⟩
    rw [pastAttributes, pastAttributesFrom, drop_pastBlanks]
    cases hname : Attribute.splitName? (Text.trimStart (text.drop i)) with
    | none =>
      rw [Attribute.skip_of_splitName?_none hname]
      rfl
    | some found =>
      obtain ⟨name, rest⟩ := found
      have hdrop := Attribute.drop_of_splitName? hname
      have hgap : 0 < (text.drop i).length - rest.length + rest.leadingBlanks := by
        have hshorter := Attribute.length_of_splitName? hname
        have htrim := Text.length_trimStart_le (text.drop i)
        omega
      have hi : i < text.length := by
        by_contra hle
        rw [List.drop_eq_nil_of_le (Nat.le_of_not_lt hle)] at hname
        cases hname
      have hblanks := pastBlanks_pastBlanks text (pastBlanks text i + 1 + name.length)
      rw [Attribute.skip_of_splitName? hname]
      dsimp only
      rw [pastBlanks_name hname] at hblanks ⊢
      generalize (text.drop i).length - rest.length + rest.leadingBlanks = gap at hdrop hgap hblanks
      rw [List.drop_drop] at hdrop
      rw [← hdrop]
      -- What is left behind an attribute is passed over as a text of its own.
      have hgoes : ∀ taken, pastAttributes text (i + gap + taken) fewer =
          Run.ended ((Reading.moved i (do
            let more ← Reading.moved (gap + taken)
              (Attribute.skip ((text.drop (i + gap)).drop taken))
            return gap + taken + more)).map (i + ·)) := by
        intro taken
        rw [ih _ (by omega) (i + gap + taken) rfl fewer (by omega), List.drop_drop, Nat.add_assoc i,
          Reading.map_moved_add]
        rfl
      rw [← List.head?_drop, Attribute.argumentListLength]
      split
      · rename_i hround
        rw [List.head?_drop] at hround
        rw [@closer_endsBy text (i + gap) .round hround fewer (by omega), Text.closerOf]
        cases hclose : Text.unitEnd (text.drop (i + gap)) with
        | error fault =>
          show Run.ended (.error ⟨fault.cause, i + gap + fault.offset⟩) =
            Run.ended (.error ⟨fault.cause, i + (gap + fault.offset)⟩)
          rw [Nat.add_assoc]
        | ok close => exact hgoes (close + 1)
      · have hbare := hgoes 0
        rw [pastAttributes, Nat.add_zero, hblanks] at hbare
        exact hbare

/-! ## String literals

A part is at least one code point long, so that there are no more parts than code points left.
Nothing is asked of the text: where no literal stands, the reader still ends. -/

theorem partAt_eq {steps : Nat} (hsteps : text.length - i ≤ steps) :
    partAt text stop i steps = Run.ended (text.decodeAt stop i) := by
  rw [partAt]
  split
  · rename_i hopens
    have hi := (List.getElem?_eq_some_iff.1 hopens.2).1
    rw [@closer_endsBy text (i + 1) .round hopens.2 steps (by omega), Text.decodeAt,
      Text.drop_eq_cons_of_getElem? hopens.1, Text.drop_eq_cons_of_getElem? hopens.2]
    simp only [if_pos]
    cases text.closerOf (i + 1) <;> rfl
  · rfl

/-- What is decoded stands in the text. -/
theorem lt_length_of_decodeAt {found : StringContent × Nat} (h : text.decodeAt stop i = .ok found) :
    i < text.length := by
  by_contra hle
  rw [Text.decodeAt, List.drop_eq_nil_of_le (Nat.le_of_not_lt hle)] at h
  cases h

/-- **Decoding a string literal ends**, whatever the text is. It comes to what the reader comes to
whose recursion is on the distance from the closing quote. -/
theorem stringFrom_endsBy (text : Text) (stop i : Nat) :
    Run.EndsBy (text.length - i) (stringFrom text stop i) (text.decodeFrom stop i) := by
  -- By induction on the length of the text that is left: a part that is read is not empty.
  induction hlength : text.length - i using Nat.strong_induction_on generalizing i with
  | _ length ih =>
    subst hlength
    intro steps hsteps
    obtain ⟨fewer, rfl⟩ : ∃ fewer, steps = fewer + 1 := ⟨steps - 1, by omega⟩
    rw [stringFrom]
    split
    · rename_i hi
      cases hpart : text.decodeAt stop i with
      | error fault =>
        rw [partAt_eq (Nat.le_of_lt_succ hsteps), hpart, Text.decodeFrom_of_error hi hpart]
        rfl
      | ok found =>
        obtain ⟨part, next⟩ := found
        have hless := Text.lt_of_decodeAt hpart
        have hlength := lt_length_of_decodeAt hpart
        have hnext := ih _ (by omega) next rfl fewer (by omega)
        rw [partAt_eq (Nat.le_of_lt_succ hsteps), hpart, Text.decodeFrom_of_ok hi hpart]
        show (stringFrom text stop next fewer >>= _) = _
        rw [hnext]
        cases text.decodeFrom stop next <;> rfl
    · rename_i hi
      rw [Text.decodeFrom, if_neg hi]
      rfl

theorem string_endsBy (text : Text) (start stop : Nat) :
    Run.EndsBy (text.length - (start + 1)) (string text start stop) (text.decode start stop) :=
  stringFrom_endsBy text (stop - 1) (start + 1)

/-! ## Expressions

Told by its first code point, an expression is a string literal, an array or something else. In each
case it is known what telling it comes to, and in the second one also where the elements stand. -/

theorem beforeBlanks_eq (hle : start ≤ stop) (hstop : stop ≤ text.length) :
    beforeBlanks text start stop = .ok (start +
      (Span.slice text ⟨start, stop⟩).trimEnd.length) := by
  rw [beforeBlanks]
  split
  · rename_i hend
    rw [Nat.le_antisymm hle hend, Span.slice_self]
    rfl
  · rw [if_neg (Nat.not_lt.2 hstop)]

theorem le_of_beforeBlanks {last : Nat} (h : beforeBlanks text start stop = .ok last) :
    last ≤ stop := by
  rw [beforeBlanks] at h
  split at h
  · cases h
    exact Nat.le_refl _
  · split at h
    · cases h
    · rename_i hlt hle
      cases h
      have htrimmed := Text.length_dropEndWhile_le CodePoint.isBlank (Span.slice text ⟨start, stop⟩)
      rw [Span.length_slice (Nat.le_of_not_lt hle)] at htrimmed
      rw [Text.trimEnd]
      omega

variable {first last : Nat}

theorem formOf_quote_endsBy (text : Text) (first last : Nat) :
    Run.EndsBy (text.length - first) (formOf text first last '"') (do
      let e ← text.skipString first
      if e = last then do
        let (content, _) ← text.decode first last
        return .string content
      else return .raw (Span.slice text ⟨first, last⟩)) := by
  have hform : formOf text first last '"' = fun steps => do
      let e ← literalEnd text first steps
      if e = last then do
        let (content, _) ← string text first last steps
        return .string content
      else return .raw (Span.slice text ⟨first, last⟩) := funext fun _ => if_pos rfl
  have hless : text.length - (first + 1) ≤ text.length - first := by omega
  rw [hform]
  refine ((literalEnd_endsBy text first).mono hless).bind fun e _ => ?_
  split
  · exact ((string_endsBy text first last).mono hless).bind fun _ _ => Run.endsBy_ended _ _
  · exact Run.endsBy_ended _ (.ok (Form.raw _))

theorem formOf_square_eq (text : Text) (first last steps : Nat) :
    formOf text first last '[' steps = (do
      let close ← closer text ⟨.unclosed .square, first⟩ first steps
      if close + 1 = last then do
        let elements ← split text (first + 1) close steps
        return .array elements
      else return .raw (Span.slice text ⟨first, last⟩)) :=
  (if_neg (by decide)).trans (if_pos rfl)

theorem formOf_square_of_closerOf {close : Nat} {outcome : Reading (List Span)}
    (hc : text[first]? = some (CodePoint.scalar '[')) (hclose : text.closerOf first = .ok close)
    (hsplit : Run.EndsBy (text.length - first) (split text (first + 1) close) outcome) :
    Run.EndsBy (text.length - first) (formOf text first (close + 1) '[')
      (outcome.map Form.array) := by
  intro steps hsteps
  rw [formOf_square_eq, @closer_endsBy text first .square hc steps hsteps, hclose]
  show (if close + 1 = close + 1 then split text (first + 1) close steps >>= _ else _) = _
  rw [if_pos rfl, hsplit steps hsteps]
  cases outcome <;> rfl

/-- What goes on behind the brackets is no array, and is taken as it is written. -/
theorem formOf_square_of_forall_ne (hc : text[first]? = some (CodePoint.scalar '['))
    (h : ∀ close, text.closerOf first = .ok close → close + 1 ≠ last) :
    Run.EndsBy (text.length - first) (formOf text first last '[')
      ((text.closerOf first).map fun _ => Form.raw (Span.slice text ⟨first, last⟩)) := by
  intro steps hsteps
  rw [formOf_square_eq, @closer_endsBy text first .square hc steps hsteps]
  cases hclose : text.closerOf first with
  | error fault => rfl
  | ok close =>
    show (if close + 1 = last then _ else _) = _
    rw [if_neg (h close hclose)]
    rfl

theorem formOf_other_endsBy {c : CodePoint} (hquote : c ≠ '"') (hsquare : c ≠ '[') (enough : Nat) :
    Run.EndsBy enough (formOf text first last c) (.ok (.raw (Span.slice text ⟨first, last⟩))) := by
  intro steps _
  rw [formOf, if_neg hquote, if_neg hsquare]
  rfl

/-- It can be told what an expression is; and if it is an array, then its elements stand inside
it. -/
theorem exists_formOf_endsBy {c : CodePoint} (hc : text[first]? = some c) (last : Nat) :
    ∃ outcome, Run.EndsBy (text.length - first) (formOf text first last c) outcome ∧
      ∀ spans, outcome = .ok (.array spans) → ∀ span ∈ spans,
        first < span.start ∧ span.start ≤ span.stop ∧ span.stop < last := by
  by_cases hquote : c = '"'
  · subst hquote
    refine ⟨_, formOf_quote_endsBy text first last, fun spans hspans => ?_⟩
    obtain ⟨e, _, hform⟩ := Reading.bind_eq_ok.1 hspans
    split at hform
    · obtain ⟨_, _, hstring⟩ := Reading.bind_eq_ok.1 hform
      cases hstring
    · cases hform
  · by_cases hsquare : c = '['
    · subst hsquare
      by_cases hwhole : ∃ close, text.closerOf first = .ok close ∧ close + 1 = last
      · obtain ⟨close, hclose, rfl⟩ := hwhole
        obtain ⟨outcome, hsplit, hwithin⟩ := exists_split_endsBy text (first + 1) close
        have hform := formOf_square_of_closerOf hc hclose (hsplit.mono (by omega))
        refine ⟨_, hform, fun spans hspans span hspan => ?_⟩
        obtain ⟨found, hfound, harray⟩ := Outcome.map_eq_ok_iff.1 hspans
        cases harray
        obtain ⟨hfirst, hle, hlast⟩ := hwithin spans hfound span hspan
        exact ⟨hfirst, hle, Nat.lt_succ_of_le hlast⟩
      · have hpart : ∀ close, text.closerOf first = .ok close → close + 1 ≠ last :=
          fun close hclose hlast => hwhole ⟨close, hclose, hlast⟩
        refine ⟨_, formOf_square_of_forall_ne hc hpart, fun spans hspans => ?_⟩
        obtain ⟨_, _, hraw⟩ := Outcome.map_eq_ok_iff.1 hspans
        cases hraw
    · exact ⟨_, formOf_other_endsBy hquote hsquare _, fun _ hraw => by cases hraw⟩

/-- Where a code point stands behind the blanks, the expression is told by it, up to the offset
before the blanks at the end. -/
theorem form_endsBy (stop : Nat) {enough : Nat} {c : CodePoint} {rest : Nat → Reading Form}
    (hc : text[pastBlanks text start]? = some c)
    (h : ∀ last, Run.EndsBy enough (formOf text (pastBlanks text start) last c) (rest last)) :
    Run.EndsBy enough (form text start stop) (do
      let last ← beforeBlanks text (pastBlanks text start) stop
      if pastBlanks text start = last then .error ⟨.noExpression, last⟩ else rest last) := by
  refine (Run.endsBy_ended _ _).bind fun last _ => ?_
  split
  · exact Run.endsBy_ended _ (.error _)
  · rw [hc]
    exact h last

/-- **It can be told what stands in a stretch**, whatever it is. The elements of an array stand
inside the stretch, so that each is shorter. -/
theorem exists_form_endsBy (text : Text) (start stop : Nat) :
    ∃ outcome, Run.EndsBy (text.length - start) (form text start stop) outcome ∧
      ∀ spans, outcome = .ok (.array spans) → start < text.length ∧ ∀ span ∈ spans,
        start < span.start ∧ span.start ≤ span.stop ∧ span.stop < stop := by
  have hfirst : start ≤ pastBlanks text start := Nat.le_add_right _ _
  cases hc : text[pastBlanks text start]? with
  | none =>
    -- Nothing but blanks to the end of the text: no form is looked for.
    refine ⟨do
      let last ← beforeBlanks text (pastBlanks text start) stop
      if pastBlanks text start = last then .error ⟨.noExpression, last⟩
      else .error ⟨.pastEnd, pastBlanks text start⟩, ?_, fun spans hspans => ?_⟩
    · refine (Run.endsBy_ended _ _).bind fun last _ => ?_
      split
      · exact Run.endsBy_ended _ (.error _)
      · rw [hc]
        exact Run.endsBy_ended _ (.error _)
    · obtain ⟨last, _, hform⟩ := Reading.bind_eq_ok.1 hspans
      split at hform <;> cases hform
  | some c =>
    have hlt := (List.getElem?_eq_some_iff.1 hc).1
    -- What the form comes to depends on where the piece ends, which is searched next.
    obtain ⟨rest, hrest⟩ := Classical.skolem.1 (exists_formOf_endsBy hc)
    have hform := form_endsBy stop hc fun last => (hrest last).1
    refine ⟨_, hform.mono (by omega), fun spans hspans => ⟨by omega, fun span hspan => ?_⟩⟩
    obtain ⟨last, hlast, harray⟩ := Reading.bind_eq_ok.1 hspans
    split at harray
    · cases harray
    · obtain ⟨hinside, hle, hbefore⟩ := (hrest last).2 spans harray span hspan
      have hstop := le_of_beforeBlanks hlast
      exact ⟨by omega, hle, by omega⟩

theorem Form.expression_endsBy {enough : Nat} {run : Span → Nat → Run Expression}
    {element : Span → Reading Expression} (found : Form)
    (h : ∀ spans, found = .array spans → ∀ span ∈ spans, Run.EndsBy enough (run span)
      (element span)) :
    Run.EndsBy enough (fun steps => found.expression fun span => run span steps)
      (found.expression element) := by
  cases found with
  | string content => exact Run.endsBy_ended _ (.ok _)
  | raw text => exact Run.endsBy_ended _ (.ok _)
  | array spans =>
    exact (Run.EndsBy.mapM (h spans rfl)).bind fun elements _ =>
      Run.endsBy_ended _ (.ok (Expression.array elements))

/-- Reading an expression is telling what it is and reading the elements, if it is an array. It
takes one step more than the elements do. -/
theorem expression_endsBy {outcome : Reading Form} {element : Span → Reading Expression}
    (hform : Run.EndsBy (text.length - start) (form text start stop) outcome)
    (helements : ∀ spans, outcome = .ok (.array spans) → ∀ span ∈ spans,
      Run.EndsBy (text.length - start) (expression text span.start span.stop) (element span)) :
    Run.EndsBy (text.length - start + 1) (expression text start stop)
      (outcome >>= Form.expression element) := by
  have hread : Run.EndsBy (text.length - start) (fun steps => do
      let found ← form text start stop steps
      found.expression fun span => expression text span.start span.stop steps)
      (outcome >>= Form.expression element) :=
    hform.bind fun found hfound => found.expression_endsBy fun spans hspans =>
      helements spans (hspans ▸ hfound)
  intro steps hsteps
  obtain ⟨fewer, rfl⟩ : ∃ fewer, steps = fewer + 1 := ⟨steps - 1, by omega⟩
  rw [expression]
  exact hread fewer (by omega)

/-- **Reading an expression ends**, whatever the stretch is. By induction on what is left of the
text, which the elements have less of. -/
theorem exists_expression_endsBy (text : Text) (start stop : Nat) :
    ∃ outcome, Run.EndsBy (text.length - start + 1) (expression text start stop) outcome := by
  -- By induction on the length of the text that is left: an element starts behind its array.
  induction hlength : text.length - start using Nat.strong_induction_on generalizing start stop with
  | _ length ih =>
    subst hlength
    obtain ⟨outcome, hform, hinside⟩ := exists_form_endsBy text start stop
    have helement : ∀ span : Span, ∃ outcome, start < text.length → start < span.start →
        Run.EndsBy (text.length - start) (expression text span.start span.stop) outcome := by
      intro span
      by_cases hspan : start < text.length ∧ start < span.start
      · obtain ⟨outcome, hends⟩ := ih _ (by omega) span.start span.stop rfl
        exact ⟨outcome, fun _ _ => hends.mono (by omega)⟩
      · exact ⟨.error ⟨.pastEnd, 0⟩, fun hlt hless => absurd ⟨hlt, hless⟩ hspan⟩
    obtain ⟨element, helement⟩ := Classical.skolem.1 helement
    refine ⟨outcome >>= Form.expression element, expression_endsBy hform ?_⟩
    intro spans hspans span hspan
    obtain ⟨hlt, hwithin⟩ := hinside spans hspans
    exact helement span hlt (hwithin span hspan).1

end InPlace

end MemberSynthesis
