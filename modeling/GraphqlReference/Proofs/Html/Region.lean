import GraphqlReference.Proofs.Html.Target

namespace GraphqlReference.Html

/-- How the opening tag of a section begins. -/
def regionMark : List Char :=
  "<section".toList

theorem regionMark_eq : regionMark = '<' :: Element.region.tag.toList :=
  rfl

theorem Tag.region_of_content {tag : Tag} {behind after : List Char}
    (same : tag.content ++ '>' :: behind = Element.region.tag.toList ++ after) :
    ∃ attributes, tag = .opening .region attributes := by
  have mark : Element.region.tag.toList ++ after = 's' :: 'e' :: ("ction".toList ++ after) := rfl
  rw [mark] at same
  cases tag with
  | closing element => exact absurd (List.cons.inj same).1 (by decide)
  | opening element attributes =>
      cases element with
      | region => exact ⟨attributes, rfl⟩
      | division => exact absurd (List.cons.inj same).1 (by decide)
      | span => exact absurd (List.cons.inj (List.cons.inj same).2).1 (by decide)
      | anchor => exact absurd (List.cons.inj same).1 (by decide)

/-- The beginning of a section read in a text is that of one of its tags. -/
theorem Cut.region_of_write {cut : Cut} (clean : cut.IsClean) {before after : List Char}
    (same : cut.write = before ++ (regionMark ++ after)) :
    ∃ attributes, Tag.opening .region attributes ∈ cut.tags := by
  induction cut generalizing before with
  | last run =>
      have less : '<' ∉ before ++ (regionMark ++ after) := same ▸ clean.less
      exact absurd (by simp [regionMark_eq]) less
  | next run tag behind ih =>
      obtain ⟨runClean, plain, behindClean⟩ := clean
      have split : run ++ '<' :: (tag.content ++ '>' :: behind.write) =
          before ++ '<' :: (Element.region.tag.toList ++ after) := by
        simpa [Cut.write, Tag.write, regionMark_eq] using same
      rcases Text.append_cons_eq_append_cons runClean.less split with
        ⟨_, here⟩ | ⟨rest, _, later⟩
      · obtain ⟨attributes, rfl⟩ := Tag.region_of_content here.symm
        exact ⟨attributes, List.mem_cons_self⟩
      · have content := Tag.isRun_content plain
        rcases Text.append_eq_append_cons later with ⟨inner, inContent, _⟩ | ⟨inner, _, inBehind⟩
        · exact absurd (by simp [inContent]) content.less
        · cases inner with
          | nil => exact absurd (List.cons.inj inBehind).1 (by decide)
          | cons _ inner =>
              obtain ⟨attributes, member⟩ := ih behindClean (List.cons.inj inBehind).2
              exact ⟨attributes, List.mem_cons_of_mem _ member⟩

/-- What is laid out by rules that allow no section does not read as the beginning of one. -/
theorem Laid.no_region {rules : Rules} {place behind : Place} {laid shown : Fragment}
    (flow : Laid rules place laid shown behind)
    (forbidden : ∀ attributes, ¬ rules.opens .region attributes) {before after : List Char} :
    laid.write ≠ before ++ (regionMark ++ after) := by
  intro same
  have clean := Fragment.isClean_cutFrom isRun_nil flow.isPlain
  have written : (Fragment.cutFrom [] laid).write = _ :=
    (Fragment.write_cutFrom [] laid).trans same
  obtain ⟨attributes, member⟩ := Cut.region_of_write clean written
  exact forbidden attributes (flow.allowed (Fragment.mem_of_mem_tags member))

end GraphqlReference.Html
