import MemberSynthesis.Member.Layout
import MemberSynthesis.Proofs.Text.Lines

/-!
# Laying out members changes nothing but the indentation

Members are laid out line by line: each of them is cut into its lines, and an empty line is put
between each two. The empty lines that are put in and those inside of a member look alike, so the
layout cannot be taken apart into members again. It can be taken for the lines of one text, though:
**the members with an empty line between each two, every line moved right but the empty ones**
(`layOut_eq`). Everything else follows from that one equation, whatever the number of members.

Cutting a text into its lines loses what ends them. So all of this is about members whose lines are
ended by line feeds alone (`Member.IsLined`), and the last line of a member must have something in
it.
-/

set_option autoImplicit false

namespace MemberSynthesis

namespace Member

/-- The text of the member has lines that only line feeds end, and does not end with one. It is not
empty, so it has a line. -/
structure IsLined (member : Member) : Prop where
  nonempty : member.text ≠ []
  unended : member.text.getLast? ≠ some (CodePoint.scalar '\n')
  feeds : ∀ c ∈ member.text, c.isLineEnd → c = '\n'

variable {indent : Text} {members first second : List Member}

/-- The texts of members with an empty line between each two, as one text that is not moved. -/
def spaced (members : List Member) : Text := Text.joined "\n\n" (members.map text)

theorem spaced_cons (member : Member) (h : members ≠ []) :
    spaced (member :: members) = member.text ++ ("\n\n" ++ spaced members) :=
  Text.joined_cons _ _ (by simpa using h)

theorem spaced_append (hfirst : first ≠ []) (hsecond : second ≠ []) :
    spaced (first ++ second) = spaced first ++ ("\n\n" ++ spaced second) := by
  rw [spaced, List.map_append, Text.joined_append _ (by simpa using hfirst)
    (by simpa using hsecond)]
  rfl

/-- Two line feeds between two texts are an empty line between their lines, whatever the texts start
and end with. -/
theorem feedLines_gap (before after : Text) :
    Text.feedLines (before ++ ("\n\n" ++ after)) = before.feedLines ++ [] :: after.feedLines :=
  (Text.feedLines_append_feed before (CodePoint.scalar '\n' :: after)).trans
    (congrArg (before.feedLines ++ ·) (Text.feedLines_append_feed [] after))

/-- The lines of lined members, with an empty line between each two members, are those of the spaced
text, each moved right. By induction on the members. -/
theorem intercalate_indentedLines (hne : members ≠ []) (h : ∀ member ∈ members, member.IsLined) :
    ([[]] : List Text).intercalate (members.map (indentedLines indent)) =
      (spaced members).feedLines.map (Text.indented indent) := by
  induction members with
  | nil => exact absurd rfl hne
  | cons member more ih =>
    obtain ⟨hmember, hothers⟩ := List.forall_mem_cons.1 h
    have hlines : indentedLines indent member =
        member.text.feedLines.map (Text.indented indent) := by
      rw [indentedLines, Text.lines_eq_feedLines hmember.feeds hmember.nonempty hmember.unended]
    by_cases hmore : more = []
    · rw [hmore, List.map_singleton, List.intercalate_singleton, hlines]
      exact congrArg _ (congrArg _ (Text.joined_singleton _ _).symm)
    · rw [List.map_cons, List.intercalate_cons_of_ne_nil (by simpa using hmore),
        ih hmore hothers, hlines, spaced_cons member hmore, feedLines_gap, List.map_append,
        List.map_cons]
      simp only [List.append_assoc, List.singleton_append]
      rfl

/-- **Laid out, lined members are their texts with empty lines between them, moved right.** -/
theorem layOut_eq (h : ∀ member ∈ members, member.IsLined) :
    layOut indent members = Text.stacked ((spaced members).feedLines.map
      (Text.indented indent)) := by
  by_cases hne : members = []
  · rw [hne]
    rfl
  · rw [layOut, intercalate_indentedLines hne h]

/-- The lines of the layout are the lines of the members, one by one, since an indent without line
ends breaks none of them. -/
theorem feedLines_layOut (hindent : ∀ c ∈ indent, c.isLineEnd = false)
    (h : ∀ member ∈ members, member.IsLined) :
    (layOut indent members).feedLines = (spaced members).feedLines.map (Text.indented indent) := by
  have hfeed : CodePoint.scalar '\n' ∉ indent := fun hmem => absurd (hindent _ hmem) (by decide)
  rw [layOut_eq h, Text.feedLines_stacked (by simpa using Text.feedLines_ne_nil _)]
  intro line hline
  obtain ⟨original, horiginal, rfl⟩ := List.mem_map.1 hline
  exact Text.not_mem_indented hfeed (Text.not_mem_of_mem_feedLines horiginal)

/-- **The layout of members below each other is made of their layouts.** -/
theorem layOut_append (hfirst : first ≠ []) (hsecond : second ≠ [])
    (h : ∀ member ∈ first ++ second, member.IsLined) :
    layOut indent (first ++ second) = layOut indent first ++ "\n\n" ++ layOut indent second := by
  obtain ⟨hbefore, hafter⟩ := List.forall_mem_append.1 h
  have hlines : ∀ {text : Text}, text.feedLines.map (Text.indented indent) ≠ [] := by
    intro text
    simpa using Text.feedLines_ne_nil text
  rw [layOut_eq h, layOut_eq hbefore, layOut_eq hafter, spaced_append hfirst hsecond, feedLines_gap,
    List.map_append, List.map_cons, Text.stacked_append hlines (List.cons_ne_nil _ _),
    Text.stacked_cons hlines]
  simp only [List.append_assoc]
  rfl

/-- **Laying out lined members only indents them.** The lines of the layout are those of the
members, with an empty line between each two members: the empty ones as they were, all others behind
the indent. Without the indent they make up the texts of the members again, and what is laid out in
two parts is laid out as a whole. -/
theorem layOut_indents (hindent : ∀ c ∈ indent, c.isLineEnd = false)
    (h : ∀ member ∈ members, member.IsLined) :
    (layOut indent members).feedLines =
        (Text.joined "\n\n" (members.map text)).feedLines.map (Text.indented indent) ∧
      (∀ line ∈ (layOut indent members).feedLines, line ≠ [] → indent <+: line) ∧
      Text.stacked ((layOut indent members).feedLines.map fun line => line.drop indent.length) =
        Text.joined "\n\n" (members.map text) ∧
      ∀ first second, first ≠ [] → second ≠ [] → members = first ++ second →
        layOut indent members = layOut indent first ++ "\n\n" ++ layOut indent second := by
  have hlines := feedLines_layOut hindent h
  refine ⟨hlines, ?_, ?_, ?_⟩
  · rw [hlines]
    intro line hline hne
    obtain ⟨original, _, rfl⟩ := List.mem_map.1 hline
    rw [Text.indented] at hne ⊢
    split
    · rename_i hempty
      exact absurd (if_pos hempty) hne
    · exact List.prefix_append indent original
  · rw [hlines, List.map_map]
    have hback : (fun line : Text => line.drop indent.length) ∘ Text.indented indent = id :=
      funext (Text.drop_indented indent)
    rw [hback, List.map_id, Text.stacked_feedLines]
    rfl
  · rintro first second hfirst hsecond rfl
    exact layOut_append hfirst hsecond h

/-- A member with an empty line in it, and one of a single line. -/
theorem layOut_indents_pair :
    let members : List Member := [⟨.hash, "a", "a\n\n  b"⟩, ⟨.hash, "c", "c"⟩]
    layOut "\t" members = "\ta\n\n\t  b\n\n\tc" ∧
      (layOut "\t" members).feedLines = (["\ta", [], "\t  b", [], "\tc"] : List Text) ∧
      layOut "\t" members = layOut "\t" (members.take 1) ++ "\n\n" ++
        layOut "\t" (members.drop 1) := by
  intro members
  have hlined : ∀ member ∈ members, member.IsLined := by
    rw [List.forall_mem_cons, List.forall_mem_singleton]
    exact ⟨⟨by decide, by decide, by decide⟩, ⟨by decide, by decide, by decide⟩⟩
  obtain ⟨hlines, _, hback, hparts⟩ := @layOut_indents "\t" members (by decide) hlined
  refine ⟨by decide, hlines.trans (by decide), ?_⟩
  exact hparts _ _ (by decide) (by decide) (List.take_append_drop 1 members).symm

end Member

end MemberSynthesis
