import Mathlib.Data.List.Forall2
import GraphqlReference.Proofs.Html.Alike

namespace GraphqlReference.Html

def lineContents : List Char → List (List Char)
  | [] => []
  | c :: rest =>
    match lineOpening.isPrefixOf? (c :: rest) with
    | some behind => behind.takeWhile (· ≠ '<') :: lineContents rest
    | none => lineContents rest

theorem lineContents_cons {c : Char} {rest : List Char} (other : ¬ lineOpening <+: c :: rest) :
    lineContents (c :: rest) = lineContents rest := by
  rw [lineContents]
  split
  · rename_i behind opens
    exact absurd ⟨behind, List.isPrefixOf?_eq_some_iff_append_eq.mp opens⟩ other
  · rfl

theorem lineContents_run {run : List Char} (outside : '<' ∉ run) (rest : List Char) :
    lineContents (run ++ rest) = lineContents rest := by
  induction run with
  | nil => rfl
  | cons c run ih =>
      obtain ⟨different, outside⟩ := not_or.mp (mt List.mem_cons.mpr outside)
      have other : ¬ lineOpening <+: c :: (run ++ rest) :=
        fun ⟨_, same⟩ => different (List.cons.inj same).1
      rw [List.cons_append, lineContents_cons other, ih outside]

theorem lineContents_tag {tag : Tag} (plain : tag.isPlain = true) (other : tag.write ≠ lineOpening)
    (rest : List Char) : lineContents (tag.write ++ rest) = lineContents rest := by
  have inside : '<' ∉ tag.content ++ ['>'] := by
    simpa using (Tag.isRun_content plain).less
  have closed : ¬ lineOpening <+: '<' :: ((tag.content ++ ['>']) ++ rest) := by
    rintro ⟨after, same⟩
    have line : (Tag.opening .division [.style "line"]).isPlain = true := by decide
    exact other (write_append_inj line plain same).1.symm
  have skipped := lineContents_cons closed
  rw [lineContents_run inside] at skipped
  exact skipped

theorem lineContents_line {content : List Char} (inside : '<' ∉ content) (rest : List Char) :
    lineContents (lineOpening ++ (content ++ (lineClosing ++ rest))) =
      content :: lineContents rest := by
  have division : (Tag.closing .division).isPlain = true := rfl
  have closing : lineContents (lineClosing ++ rest) = lineContents rest :=
    lineContents_tag division (by decide) rest
  have behind : lineContents (lineOpening.tail ++ (content ++ (lineClosing ++ rest))) =
      lineContents rest := by
    rw [lineContents_run (by decide), lineContents_run inside, closing]
  have stop : (content ++ (lineClosing ++ rest)).takeWhile (· ≠ '<') = content := by
    refine Text.takeWhile_run (fun c member => ?_) fun c first => ?_
    · simpa using fun here : c = '<' => inside (here ▸ member)
    · obtain rfl : '<' = c := Option.some.inj first
      rfl
  have opens : lineContents (lineOpening ++ (content ++ (lineClosing ++ rest))) =
      (content ++ (lineClosing ++ rest)).takeWhile (· ≠ '<') ::
        lineContents (lineOpening.tail ++ (content ++ (lineClosing ++ rest))) := rfl
  rw [opens, stop, behind]

namespace Fragment

/-- The lines of a fragment hold these texts, wherever it stands. -/
def Lists (fragment : Fragment) (contents : List (List Char)) : Prop :=
  ∀ rest, lineContents (fragment.write ++ rest) = contents ++ lineContents rest

variable {fragment first second content : Fragment} {contents contents' : List (List Char)}

theorem Lists.lineContents (lists : Lists fragment contents) :
    lineContents fragment.write = contents := by
  have alone := lists []
  rwa [List.append_nil, Html.lineContents, List.append_nil] at alone

theorem lists_nil : Lists [] [] :=
  fun _ => rfl

theorem Lists.append (lists : Lists first contents) (lists' : Lists second contents') :
    Lists (first ++ second) (contents ++ contents') := by
  intro rest
  rw [write_append, List.append_assoc, lists, lists', List.append_assoc]

theorem less_not_mem_tagless (tagless : content.isTagless = true) : '<' ∉ content.write := by
  induction content with
  | nil => exact List.not_mem_nil
  | cons piece rest ih =>
      obtain ⟨here, behind⟩ := Bool.and_eq_true_iff.mp tagless
      rw [write_cons]
      refine List.not_mem_append ?_ (ih behind)
      cases piece with
      | opening | closing => cases here
      | text content => exact markupChar_not_mem_escape rfl content
      | quotes count => exact fun member => absurd (List.eq_of_mem_replicate member) (by decide)
      | spacer => decide

theorem lists_tagless (tagless : content.isTagless = true) : Lists content [] :=
  lineContents_run (less_not_mem_tagless tagless)

theorem lists_opening {element : Element} {attributes : List Attribute}
    (plain : (Tag.opening element attributes).isPlain = true)
    (other : (Tag.opening element attributes).write ≠ lineOpening) :
    Lists [.opening element attributes] [] := by
  intro rest
  rw [write_singleton, Piece.write_opening, lineContents_tag plain other, List.nil_append]

theorem lists_closing (element : Element) : Lists [.closing element] [] := by
  intro rest
  rw [write_singleton, Piece.write_closing,
    lineContents_tag rfl (closing_ne_lineOpening element), List.nil_append]

theorem lists_line (tagless : content.isTagless = true) : Lists (line content) [content.write] := by
  intro rest
  have split : (line content).write ++ rest =
      lineOpening ++ (content.write ++ (lineClosing ++ rest)) := by
    simp [line, division, write]
    rfl
  rw [split, lineContents_line (less_not_mem_tagless tagless), List.singleton_append]

theorem lists_descriptionOpening : Lists [.opening .division [.style "description"]] [] :=
  lists_opening (by decide) (by decide)

theorem lists_description (tagless : content.isTagless = true) :
    Lists (division "description" (line content)) [content.write] :=
  (lists_descriptionOpening.append (lists_line tagless)).append (lists_closing .division)

end Fragment

namespace Section

/-- The lines of each token hold these texts. -/
abbrev Lists (markup : Section) (contents : List (List (List Char))) : Prop :=
  List.Forall₂ (fun token lines => Fragment.Lists token.content lines) markup contents

variable {markup : Section} {contents : List Fragment} {listed : List (List (List Char))}

theorem Lists.laidOut (lists : Lists markup listed) (depth : Nat) (started : Bool) :
    (laidOut depth started markup).Lists listed.flatten := by
  induction lists generalizing depth started with
  | nil => exact Fragment.lists_nil
  | cons here _ ih =>
      have layout : ∀ blanks, Fragment.Lists [.text blanks] [] :=
        fun _ => Fragment.lists_tagless rfl
      exact (layout _).append (here.append (ih _ _))

theorem Lists.lineContents_render (lists : Lists markup listed) :
    lineContents markup.render = listed.flatten := by
  have whole := (lists.laidOut 0 false).lineContents
  rwa [write_laidOut] at whole

theorem Lists.content (lists : Lists markup listed) :
    Fragment.Lists (markup.flatMap Token.content) listed.flatten := by
  induction lists with
  | nil => exact Fragment.lists_nil
  | cons here _ ih => exact here.append ih

theorem settled_eq_write
    (kept : ∀ token ∈ markup, Fragment.write token.content ≠ Fragment.emptyLine.write) :
    settled markup = Fragment.write (markup.flatMap Token.content) := by
  induction markup with
  | nil => rfl
  | cons token rest ih =>
      obtain ⟨other, others⟩ := List.forall_mem_cons.mp kept
      have same : (token.write Piece.write).settled = Fragment.write token.content := by
        rw [Token.settled, Token.content_write, if_neg other]
      rw [settled_cons, same, ih others, List.flatMap_cons, Fragment.write_append]

theorem lists_describing (tagless : ∀ content ∈ contents, content.isTagless = true) :
    Lists (describing contents) ([] :: contents.map (fun content => [content.write]) ++ [[]]) := by
  have lines : Lists (lines contents) (contents.map fun content => [content.write]) := by
    rw [Lists, Section.lines, List.forall₂_map_left_iff, List.forall₂_map_right_iff,
      List.forall₂_same]
    exact fun content member => Fragment.lists_line (tagless content member)
  have closing : Fragment.Lists [.closing .division] [] := Fragment.lists_closing .division
  have start : Lists
      (.opening [.opening .division [.style "description"]] :: Section.lines contents)
      ([] :: contents.map fun content => [content.write]) :=
    .cons Fragment.lists_descriptionOpening lines
  exact List.rel_append start (.cons closing .nil)

theorem flatten_describing (contents : List Fragment) :
    ([] :: contents.map (fun content : Fragment => [content.write]) ++ [[]]).flatten =
      contents.map Fragment.write := by
  rw [List.map_eq_flatMap (f := Fragment.write), List.flatMap_def]
  simp

theorem lineContents_render_describing (tagless : ∀ content ∈ contents, content.isTagless = true) :
    lineContents (describing contents).render = contents.map Fragment.write := by
  rw [(lists_describing tagless).lineContents_render, flatten_describing]

theorem line_ne_emptyLine {content : Fragment} (some : content.write ≠ []) :
    (Fragment.line content).write ≠ Fragment.emptyLine.write := by
  intro same
  have longer := congrArg List.length same
  simp [Fragment.line, Fragment.emptyLine, Fragment.division, Fragment.write_cons,
    Fragment.write_append] at longer
  exact some longer

theorem lineContents_settled_describing (tagless : ∀ content ∈ contents, content.isTagless = true)
    (some : ∀ content ∈ contents, content.write ≠ []) :
    lineContents (describing contents).settled = contents.map Fragment.write := by
  have kept : ∀ token ∈ describing contents,
      Fragment.write token.content ≠ Fragment.emptyLine.write := by
    refine List.forall_mem_append.mpr ⟨List.forall_mem_cons.mpr ⟨by decide, ?_⟩,
      List.forall_mem_singleton.mpr (by decide)⟩
    exact List.forall_mem_map.mpr fun content member => line_ne_emptyLine (some content member)
  rw [settled_eq_write kept, (lists_describing tagless).content.lineContents, flatten_describing]

end Section

theorem Cut.settle_next_nil (tag : Tag) (behind : Cut) (previous : List Char) :
    (Cut.next [] tag behind).settle false previous =
      (Cut.next [] tag behind).settle true previous := by
  have closed : closeRun [] = [] := by decide
  simp only [Cut.settle, Cut.mapGaps, closed, if_true, Bool.false_eq_true, if_false]

theorem Section.Whole.normalize_render {rules : Rules} {element : Element}
    {attributes : List Attribute} {rest : Section}
    (whole : Section.Whole rules (.opening [.opening element attributes] :: rest))
    (visible : ∀ text, rules.shows text → Text.isVisible text = true) :
    normalize (Section.render (.opening [.opening element attributes] :: rest)) =
      Section.settled (.opening [.opening element attributes] :: rest) := by
  obtain ⟨shown, laid, settled⟩ := (whole []).laidOut 0 false
  have normal := Fragment.normalize_write laid.isPlain
  have unopened : [] ≠ lineOpening := by decide
  have kept := laid.settle visible rfl .bare fun _ _ => unopened
  have first : ∃ behind, Fragment.cutFrom [] (Section.laidOut 0 false
      (.opening [.opening element attributes] :: rest)) =
        .next [] (.opening element attributes) behind := ⟨_, rfl⟩
  obtain ⟨behind, cut⟩ := first
  rw [cut, Cut.settle_next_nil, ← cut, kept, Fragment.write_cutFrom, Section.write_laidOut,
    settled visible] at normal
  exact normal

end GraphqlReference.Html
