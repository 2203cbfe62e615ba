import MemberSynthesis.Member.Basic
import MemberSynthesis.Proofs.Text.Lines

/-!
# Reading the body of a block

A block is written as a header, a body one step to the right, and a closing brace. `bodyLines?`
takes such a text apart again, line by line, and **gives back the lines the block was made of**
(`bodyLines?_braced`), provided that neither the header nor a line of the body breaks into several.

Most members are blocks, and most theorems on them start here: what is proved of the lines of
a body is proved of the text of the member by one of the lemmas below. The header may have several
lines for `feedLines_braced`, and must have a single one for `bodyLines?`, which drops the first
line and nothing else. That blocks with the same text have the same parts (`eq_of_braced_eq`) is how
two schemas with the same members are seen to say the same.
-/

set_option autoImplicit false

namespace MemberSynthesis

namespace Member

/-- The lines between the first line and the closing brace on the last one, moved one step to the
left. A text that does not end with such a line has none. -/
def bodyLines? (text : Text) : Option (List Text) :=
  match text.feedLines with
  | [] => none
  | _ :: more =>
    if more.getLast? = some ("\x7d" : Text) then
      some (more.dropLast.map fun line => line.drop indent.length)
    else none

/-- **The lines of a block**: those of its header, of which there may be several, its body one step
to the right, and the closing brace. -/
theorem feedLines_braced {header : Text} {body : List Text}
    (hbody : ∀ line ∈ body, CodePoint.scalar '\n' ∉ line) :
    Text.feedLines (braced header body) =
      header.feedLines ++ (body.map (Text.indented indent) ++ [("\x7d" : Text)]) := by
  have hmore : body.map (Text.indented indent) ++ [("\x7d" : Text)] ≠ [] := by simp
  rw [braced, List.cons_append, Text.stacked_cons hmore, Text.feedLines_append_feed,
    Text.feedLines_stacked hmore]
  intro line hline
  rw [List.mem_append, List.mem_map, List.mem_singleton] at hline
  rcases hline with ⟨inner, hinner, rfl⟩ | rfl
  · exact Text.not_mem_indented (by decide) (hbody inner hinner)
  · decide

/-- The body is read back from the lines of a block with one line before it. Moving left is dropping
as many code points as the indent has, also from an empty line. -/
theorem bodyLines?_of_feedLines {text header : Text} {body : List Text}
    (h : text.feedLines = header :: (body.map (Text.indented indent) ++ [("\x7d" : Text)])) :
    bodyLines? text = some body := by
  have hback : (body.map (Text.indented indent)).map (fun line => line.drop indent.length) =
      body := by
    rw [List.map_map]
    exact List.map_id'' (Text.drop_indented indent) body
  rw [bodyLines?, h]
  simp [hback]

/-- **The body of a block is read back as it was written**, line by line, however many there are. -/
theorem bodyLines?_braced {header : Text} {body : List Text}
    (hheader : CodePoint.scalar '\n' ∉ header)
    (hbody : ∀ line ∈ body, CodePoint.scalar '\n' ∉ line) :
    bodyLines? (braced header body) = some body := by
  apply bodyLines?_of_feedLines
  rw [feedLines_braced hbody, Text.feedLines_of_not_mem hheader, List.singleton_append]

/-- Blocks of the same text below headers of one line each have the same header and the same
body. -/
theorem eq_of_braced_eq {header header' : Text} {body body' : List Text}
    (h : braced header body = braced header' body') (hheader : CodePoint.scalar '\n' ∉ header)
    (hheader' : CodePoint.scalar '\n' ∉ header')
    (hbody : ∀ line ∈ body, CodePoint.scalar '\n' ∉ line)
    (hbody' : ∀ line ∈ body', CodePoint.scalar '\n' ∉ line) : header = header' ∧ body = body' := by
  have hlines := congrArg Text.feedLines h
  rw [feedLines_braced hbody, feedLines_braced hbody', Text.feedLines_of_not_mem hheader,
    Text.feedLines_of_not_mem hheader'] at hlines
  have hread := congrArg bodyLines? h
  rw [bodyLines?_braced hheader hbody, bodyLines?_braced hheader' hbody'] at hread
  exact ⟨(List.cons.inj hlines).1, Option.some.inj hread⟩

/-- What is written above the same lines is the same. Here the headers may be anything, as the lines
below are known. -/
theorem header_eq_of_braced_eq {header header' : Text} {body : List Text}
    (h : braced header body = braced header' body) : header = header' := by
  have hmore : body.map (Text.indented indent) ++ [("\x7d" : Text)] ≠ [] := by simp
  rw [braced, braced, List.cons_append, List.cons_append, Text.stacked_cons hmore,
    Text.stacked_cons hmore] at h
  exact List.append_cancel_right h

end Member

end MemberSynthesis
