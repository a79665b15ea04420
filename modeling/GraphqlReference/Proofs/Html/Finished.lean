import GraphqlReference.Proofs.Html.Target

namespace GraphqlReference.Html

namespace Cut

theorem tags_settle (cut : Cut) (behindTag : Bool) (previous : List Char) :
    (cut.settle behindTag previous).tags = cut.tags := by
  unfold settle
  induction cut generalizing behindTag previous with
  | last run => rfl
  | next run tag behind ih => exact congrArg (tag :: ·) (ih true tag.write)

theorem isClean_settle {cut : Cut} (clean : cut.IsClean) (behindTag : Bool)
    (previous : List Char) : (cut.settle behindTag previous).IsClean :=
  isClean_fillEmpty (isClean_mapGaps (fun _ => isRun_closeRun) clean) previous

/-- The text of a tag is part of the text. -/
theorem exists_write_of_mem {cut : Cut} {tag : Tag} (member : tag ∈ cut.tags) :
    ∃ before after, cut.write = before ++ (tag.write ++ after) := by
  induction cut with
  | last run => exact absurd member List.not_mem_nil
  | next run first behind ih =>
      rcases List.mem_cons.mp member with rfl | later
      · exact ⟨run, behind.write, rfl⟩
      · obtain ⟨before, after, same⟩ := ih later
        refine ⟨run ++ (first.write ++ before), after, ?_⟩
        rw [write, same]
        simp only [List.append_assoc]

/-- A tag read in a text is one of its tags. -/
theorem tag_of_write {cut : Cut} (clean : cut.IsClean) {before content after : List Char}
    (inside : IsRun content) (same : cut.write = before ++ '<' :: (content ++ '>' :: after)) :
    ∃ tag ∈ cut.tags, tag.content = content := by
  induction cut generalizing before with
  | last run =>
      have less : '<' ∉ before ++ '<' :: (content ++ '>' :: after) := same ▸ clean.less
      exact absurd (by simp) less
  | next run tag behind ih =>
      obtain ⟨runClean, plain, behindClean⟩ := clean
      have tagClean := Tag.isRun_content plain
      have split : run ++ '<' :: (tag.content ++ '>' :: behind.write) =
          before ++ '<' :: (content ++ '>' :: after) := by
        simpa [write, Tag.write] using same
      rcases Text.append_cons_eq_append_cons runClean.less split with
        ⟨_, here⟩ | ⟨rest, _, later⟩
      · exact ⟨tag, List.mem_cons_self,
          (Text.append_cons_inj_of_not_mem tagClean.greater inside.greater here.symm).1⟩
      · rcases Text.append_eq_append_cons later with ⟨inner, inTag, _⟩ | ⟨inner, _, inBehind⟩
        · exact absurd (by simp [inTag]) tagClean.less
        · cases inner with
          | nil => exact absurd (List.cons.inj inBehind).1 (by decide)
          | cons _ inner =>
              obtain ⟨found, member, named⟩ := ih behindClean (List.cons.inj inBehind).2
              exact ⟨found, List.mem_cons_of_mem _ member, named⟩

end Cut

theorem quotesOutside_of_not_mem {run : List Char} (unquoted : '"' ∉ run) : QuotesOutside run :=
  ⟨0, run, 0, by simp, unquoted⟩

theorem QuotesOutside.closeRun {run : List Char} (outside : QuotesOutside run) :
    QuotesOutside (closeRun run) := by
  have dropped : QuotesOutside (dropBlankRun run) := by
    unfold dropBlankRun
    split
    · exact quotesOutside_of_not_mem List.not_mem_nil
    · exact outside
  unfold Html.closeRun mergeSpacerRun
  split
  · exact quotesOutside_of_not_mem (by decide)
  · exact dropped

theorem QuotesOutside.fill {run : List Char} (outside : QuotesOutside run) (empty : Prop)
    [Decidable empty] : QuotesOutside (if empty then Piece.spacer.write else run) := by
  split
  · exact quotesOutside_of_not_mem (by decide)
  · exact outside

theorem Cut.quotesOutside_settle {cut : Cut} (outside : ∀ run ∈ cut.runs, QuotesOutside run)
    (behindTag : Bool) (previous : List Char) :
    ∀ run ∈ (cut.settle behindTag previous).runs, QuotesOutside run := by
  unfold settle
  induction cut generalizing behindTag previous with
  | last run => exact outside
  | next run tag behind ih =>
      obtain ⟨here, later⟩ := List.forall_mem_cons.mp outside
      have gap : QuotesOutside (if behindTag then Html.closeRun run else run) := by
        cases behindTag with
        | false => exact here
        | true => exact here.closeRun
      exact List.forall_mem_cons.mpr ⟨gap.fill _, ih later true tag.write⟩

theorem Fragment.mem_tags {run : List Char} {fragment : Fragment} {element : Element}
    {attributes : List Attribute} (member : Piece.opening element attributes ∈ fragment) :
    Tag.opening element attributes ∈ (cutFrom run fragment).tags := by
  induction fragment generalizing run with
  | nil => exact absurd member List.not_mem_nil
  | cons piece rest ih =>
      rcases List.mem_cons.mp member with rfl | later
      · exact List.mem_cons_self
      · cases piece with
        | opening | closing => exact List.mem_cons_of_mem _ (ih later)
        | text | quotes | spacer => exact ih later

section

variable {rules : Rules} {place behind : Place} {laid shown : Fragment}

theorem Laid.normalize_write (flow : Laid rules place laid shown behind) :
    normalize laid.write = ((Fragment.cutFrom [] laid).settle false []).write :=
  Fragment.normalize_write flow.isPlain

/-- A finished document shows every opening tag. -/
theorem Laid.exists_opening (flow : Laid rules place laid shown behind) {element : Element}
    {attributes : List Attribute} (member : Piece.opening element attributes ∈ laid) :
    ∃ before after, normalize laid.write =
      before ++ ((Piece.opening element attributes).write ++ after) := by
  have shown := (Cut.tags_settle (Fragment.cutFrom [] laid) false []).symm ▸
    Fragment.mem_tags member
  rw [flow.normalize_write, Piece.write_opening]
  exact Cut.exists_write_of_mem shown

/-- A tag read in a finished document closes an element, or the rules allow to open one with it. -/
theorem Laid.tag_of_normalize (flow : Laid rules place laid shown behind)
    {before content after : List Char} (inside : IsRun content)
    (same : normalize laid.write = before ++ '<' :: (content ++ '>' :: after)) :
    ∃ tag : Tag, tag.content = content ∧ ∀ element attributes,
      tag = .opening element attributes → rules.opens element attributes := by
  have clean := Fragment.isClean_cutFrom isRun_nil flow.isPlain
  rw [flow.normalize_write] at same
  obtain ⟨tag, member, named⟩ := Cut.tag_of_write (Cut.isClean_settle clean false []) inside same
  rw [Cut.tags_settle] at member
  refine ⟨tag, named, fun element attributes opening => ?_⟩
  exact flow.allowed (Fragment.mem_of_mem_tags (opening ▸ member))

/-- A target read in a finished document is the target of a tag that the rules allow. -/
theorem Laid.target_of_normalize (flow : Laid rules place laid shown behind)
    (starts : place.run = .bare false) {before name after : List Char} (unquoted : '"' ∉ name)
    (same : normalize laid.write = before ++ (targetMark ++ (name ++ '"' :: after))) :
    ∃ element earlier target later, rules.opens element (earlier ++ .target target :: later) ∧
      name = escape target.toList := by
  have clean := Fragment.isClean_cutFrom isRun_nil flow.isPlain
  have quoted : Quoted place.run [] := starts ▸ .bare
  rw [flow.normalize_write] at same
  obtain ⟨element, earlier, target, later, _, member, named, _⟩ :=
    Cut.target_of_write (Cut.isClean_settle clean false [])
      (Cut.quotesOutside_settle (flow.quotesOutside quoted) false []) unquoted same
  rw [Cut.tags_settle] at member
  exact ⟨element, earlier, target, later, flow.allowed (Fragment.mem_of_mem_tags member), named⟩

end

end GraphqlReference.Html
