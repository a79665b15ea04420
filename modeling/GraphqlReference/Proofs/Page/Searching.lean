import GraphqlReference.Page.Navigation
import GraphqlReference.Proofs.Html.Arrangement

namespace GraphqlReference.Page

/-!
What the search for root types finds in a text. It looks for the label of an operation and the link
behind it, so nothing is found in a run between two tags, in a tag that opens no label, or where the
link behind a label has no target.
-/

open Html

/-- The opening tag of the label of a field. -/
def labelOpening : List Char :=
  (Tag.opening .span [.style "field-name"]).write

/-- The line of a root operation up to what it names. -/
def operationLabel (operation : Operation) : Fragment :=
  Fragment.span "field-name" operation.keyword ++ Fragment.span "colon" ":" ++ [.spacer]

/-- The beginning of a link to a root type that has a target. -/
def targetOpening : List Char :=
  "<a class=\"field-type\" href=\"#".toList

theorem rootLinkHead_eq (operation : Operation) :
    rootLinkHead operation = (operationLabel operation).write ++ targetOpening :=
  rfl

theorem labelOpening_begins (operation : Operation) :
    labelOpening <+: (operationLabel operation).write := by
  cases operation <;> decide

theorem rootLink?_unlabelled {text : List Char} (other : ¬ labelOpening <+: text) :
    rootLink? text = none := by
  refine List.findSome?_eq_none_iff.mpr fun pair member => ?_
  obtain ⟨operation, _, rfl⟩ := List.mem_map.mp member
  cases found : (rootLinkHead operation).isPrefixOf? text with
  | none =>
      dsimp only
      rw [found]
      rfl
  | some rest =>
      have begins : rootLinkHead operation <+: text :=
        ⟨rest, List.isPrefixOf?_eq_some_iff_append_eq.mp found⟩
      have label := (labelOpening_begins operation).trans
        ((List.prefix_append _ _).trans (rootLinkHead_eq operation ▸ begins))
      exact absurd label other

/-- Behind the label of an operation, only the markup of that operation can be found. -/
theorem rootLinkHead_behind_label (operation operation' : Operation) (behind : List Char) :
    (rootLinkHead operation').isPrefixOf? ((operationLabel operation).write ++ behind) =
      if operation' = operation then targetOpening.isPrefixOf? behind else none := by
  cases operation <;> cases operation' <;> rfl

theorem rootLink?_operationLabel (operation : Operation) (behind : List Char) :
    rootLink? ((operationLabel operation).write ++ behind) =
      (targetOpening.isPrefixOf? behind).bind fun rest =>
        (quotedTarget? rest).map (RootLink.mk operation) := by
  unfold rootLink? rootLinkHeads
  rw [List.findSome?_map]
  cases opening : targetOpening.isPrefixOf? behind with
  | none => cases operation <;> simp [rootLinkHead_behind_label, opening]
  | some rest =>
      cases quoted : quotedTarget? rest <;> cases operation <;>
        simp [rootLinkHead_behind_label, opening, quoted]

theorem rootLinksBehind_append (passed : List Char) (rest : List Char) :
    rootLinksBehind passed.length (passed ++ rest) = rootLinksBehind 0 rest := by
  induction passed with
  | nil => rfl
  | cons c passed ih => exact ih

theorem rootLinksBehind_run {run : List Char} (inside : '<' ∉ run) (rest : List Char) :
    rootLinksBehind 0 (run ++ rest) = rootLinksBehind 0 rest := by
  induction run with
  | nil => rfl
  | cons c run ih =>
      obtain ⟨different, inside⟩ := not_or.mp (mt List.mem_cons.mpr inside)
      have other : ¬ labelOpening <+: c :: (run ++ rest) := fun ⟨_, same⟩ =>
        different (List.cons.inj same).1
      rw [List.cons_append, rootLinksBehind, rootLink?_unlabelled other]
      exact ih inside

theorem rootLinksBehind_tag {tag : Tag} (plain : tag.isPlain = true) {rest : List Char}
    (unlinked : rootLink? (tag.write ++ rest) = none) :
    rootLinksBehind 0 (tag.write ++ rest) = rootLinksBehind 0 rest := by
  have inside : '<' ∉ tag.content ++ ['>'] := by
    simpa using (Tag.isRun_content plain).less
  have split : tag.write ++ rest = '<' :: ((tag.content ++ ['>']) ++ rest) := rfl
  rw [split] at unlinked ⊢
  rw [rootLinksBehind, unlinked]
  exact rootLinksBehind_run inside rest

theorem quotedTarget?_append {target : List Char} (shown : target ≠ []) (unquoted : '"' ∉ target)
    (rest : List Char) : quotedTarget? (target ++ '"' :: rest) = some target := by
  have taken : (target ++ '"' :: rest).takeWhile (· ≠ '"') = target := by
    have others : ∀ c ∈ target, decide (c ≠ '"') = true := fun c member =>
      decide_eq_true fun same => unquoted (same ▸ member)
    rw [List.takeWhile_append_of_pos others]
    exact List.append_nil target
  have longer : ¬ target.length = (target ++ '"' :: rest).length := by simp
  have some : target.isEmpty = false := by simpa using shown
  rw [quotedTarget?, taken]
  simp only [some, longer, beq_iff_eq, Bool.false_or, if_false]

/-- A line with a target tells its link, and the search goes on behind it. -/
theorem rootLinksBehind_target (operation : Operation) {target : List Char} (shown : target ≠ [])
    (unquoted : '"' ∉ target) (rest : List Char) :
    rootLinksBehind 0 ((operationLabel operation).write ++
      (targetOpening ++ (target ++ '"' :: rest))) =
      ⟨operation, target⟩ :: rootLinksBehind 0 rest := by
  obtain ⟨more, label⟩ : ∃ more, (operationLabel operation).write = '<' :: more := by
    cases operation <;> exact ⟨_, rfl⟩
  have found : rootLink? ((operationLabel operation).write ++
      (targetOpening ++ (target ++ '"' :: rest))) = some ⟨operation, target⟩ := by
    have opening : targetOpening.isPrefixOf? (targetOpening ++ (target ++ '"' :: rest)) =
        some (target ++ '"' :: rest) := List.isPrefixOf?_eq_some_iff_append_eq.mpr rfl
    rw [rootLink?_operationLabel, opening, Option.bind_some, quotedTarget?_append shown unquoted]
    rfl
  have passed : (RootLink.mk operation target).text.length - 1 =
      (more ++ (targetOpening ++ (target ++ ['"']))).length := by
    simp [RootLink.text, rootLinkHead_eq, label]
  have behind : more ++ (targetOpening ++ (target ++ '"' :: rest)) =
      (more ++ (targetOpening ++ (target ++ ['"']))) ++ rest := by simp
  rw [label, List.cons_append] at found ⊢
  simp only [rootLinksBehind, found]
  rw [passed, behind, rootLinksBehind_append]

/-- Whether a piece opens a label. -/
def isLabel : Piece → Bool
  | .opening element attributes => (Tag.opening element attributes).write = labelOpening
  | _ => false

/-- In its place between other fragments, a fragment tells of these root types. The run in front of
it may go on into it, and its last run into what follows. -/
def Tells (fragment : Fragment) (links : List RootLink) : Prop :=
  ∀ run behindTag rest, IsRun run → ∃ run' behindTag', IsRun run' ∧
    rootLinksBehind 0 ((Fragment.cutFrom run (fragment ++ rest)).mapGaps closeRun behindTag).write =
      links ++ rootLinksBehind 0 ((Fragment.cutFrom run' rest).mapGaps closeRun behindTag').write

theorem tells_nil : Tells [] [] :=
  fun run behindTag _ clear => ⟨run, behindTag, clear, rfl⟩

theorem Tells.append {first second : Fragment} {links links' : List RootLink}
    (tells : Tells first links) (tells' : Tells second links') :
    Tells (first ++ second) (links ++ links') := by
  intro run behindTag rest clear
  obtain ⟨run', behindTag', clear', found⟩ := tells run behindTag (second ++ rest) clear
  obtain ⟨last, behindLast, clearLast, found'⟩ := tells' run' behindTag' rest clear'
  refine ⟨last, behindLast, clearLast, ?_⟩
  rw [List.append_assoc, found, found', List.append_assoc]

theorem rootLinksBehind_opening {element : Element} {attributes : List Attribute}
    (plain : (Tag.opening element attributes).isPlain = true)
    (unlabelled : isLabel (.opening element attributes) = false) (rest : List Char) :
    rootLinksBehind 0 ((Tag.opening element attributes).write ++ rest) =
      rootLinksBehind 0 rest := by
  refine rootLinksBehind_tag plain (rootLink?_unlabelled fun ⟨behind, same⟩ => ?_)
  have label : (Tag.opening .span [.style "field-name"]).isPlain = true := by decide
  exact of_decide_eq_false unlabelled (write_append_inj label plain same).1.symm

theorem rootLinksBehind_closing (element : Element) (rest : List Char) :
    rootLinksBehind 0 ((Tag.closing element).write ++ rest) = rootLinksBehind 0 rest := by
  refine rootLinksBehind_tag rfl (rootLink?_unlabelled fun ⟨behind, same⟩ => ?_)
  exact absurd (List.cons.inj (List.cons.inj same).2).1 (by decide)

theorem operationLabel_write (operation : Operation) : (operationLabel operation).write =
    (Tag.opening .span [.style "field-name"]).write ++ (escape operation.keyword.toList ++
      ((Tag.closing .span).write ++ ((Tag.opening .span [.style "colon"]).write ++
        (escape ":".toList ++ ((Tag.closing .span).write ++ Piece.spacer.write))))) := by
  cases operation <;> rfl

/-- Where nothing leads on from the label of an operation, nothing is found in it. -/
theorem rootLinksBehind_label (operation : Operation) {behind : List Char}
    (unlinked : targetOpening.isPrefixOf? behind = none) :
    rootLinksBehind 0 ((operationLabel operation).write ++ behind) = rootLinksBehind 0 behind := by
  have nothing : rootLink? ((operationLabel operation).write ++ behind) = none := by
    rw [rootLink?_operationLabel, unlinked]
    rfl
  have shown : ∀ text, '<' ∉ escape text := markupChar_not_mem_escape rfl
  have spacer : '<' ∉ Piece.spacer.write := by decide
  simp only [operationLabel_write, List.append_assoc] at nothing ⊢
  rw [rootLinksBehind_tag (by decide) nothing, rootLinksBehind_run (shown _),
    rootLinksBehind_closing, rootLinksBehind_opening (by decide) (by decide),
    rootLinksBehind_run (shown _), rootLinksBehind_closing, rootLinksBehind_run spacer]

theorem isRun_gap {run : List Char} (behindTag : Bool) (clear : IsRun run) :
    IsRun (if behindTag then closeRun run else run) := by
  cases behindTag with
  | false => exact clear
  | true => exact isRun_closeRun clear

theorem tells_piece {piece : Piece} (plain : piece.isPlain = true)
    (unlabelled : isLabel piece = false) : Tells [piece] [] := by
  intro run behindTag rest clear
  have clearRun := isRun_gap behindTag clear
  have alone := Fragment.isClean_cutFrom clear (List.forall_mem_singleton.mpr plain)
  cases piece with
  | opening element attributes =>
      refine ⟨[], true, isRun_nil, ?_⟩
      simp only [List.singleton_append, Fragment.cutFrom, Cut.mapGaps, Cut.write, List.nil_append,
        rootLinksBehind_run clearRun.less, rootLinksBehind_opening plain unlabelled]
  | closing element =>
      refine ⟨[], true, isRun_nil, ?_⟩
      simp only [List.singleton_append, Fragment.cutFrom, Cut.mapGaps, Cut.write, List.nil_append,
        rootLinksBehind_run clearRun.less, rootLinksBehind_closing]
  | text | quotes | spacer => exact ⟨_, behindTag, alone, rfl⟩

/-- A piece in which no root type is found. -/
def isSilent (piece : Piece) : Bool :=
  piece.isPlain && !isLabel piece

def Silent (fragment : Fragment) : Prop :=
  ∀ piece ∈ fragment, isSilent piece = true

instance (fragment : Fragment) : Decidable (Silent fragment) :=
  inferInstanceAs (Decidable (∀ piece ∈ fragment, isSilent piece = true))

theorem Silent.tells {fragment : Fragment} (silent : Silent fragment) : Tells fragment [] := by
  induction fragment with
  | nil => exact tells_nil
  | cons piece rest ih =>
      obtain ⟨here, behind⟩ := List.forall_mem_cons.mp silent
      obtain ⟨plain, unlabelled⟩ := Bool.and_eq_true_iff.mp here
      exact (tells_piece plain (by simpa using unlabelled)).append (ih behind)

theorem write_operationLabel (operation : Operation) (run : List Char) (behindTag : Bool)
    (element : Element) (attributes : List Attribute) (rest : Fragment) :
    ((Fragment.cutFrom run
      (operationLabel operation ++ .opening element attributes :: rest)).mapGaps
        closeRun behindTag).write =
      (if behindTag then closeRun run else run) ++ ((operationLabel operation).write ++
        ((Tag.opening element attributes).write ++
          ((Fragment.cutFrom [] rest).mapGaps closeRun true).write)) := by
  have visible : Text.isVisible operation.keyword.toList = true := by
    cases operation <;> decide
  have keyword := (isSeen_escape visible).closeRun
  have seen : Text.isVisible ":".toList = true := by decide
  have colon := (isSeen_escape seen).closeRun
  have spacer : closeRun Piece.spacer.write = Piece.spacer.write :=
    (@Pending.spaced [] [] (by simp) (by simp)).closeRun
  have none : closeRun [] = [] := (@Pending.bare false).closeRun
  have cut : Fragment.cutFrom run
      (operationLabel operation ++ .opening element attributes :: rest) =
      .next run (.opening .span [.style "field-name"]) (.next (escape operation.keyword.toList)
        (.closing .span) (.next [] (.opening .span [.style "colon"]) (.next (escape ":".toList)
          (.closing .span) (.next Piece.spacer.write (.opening element attributes)
            (Fragment.cutFrom [] rest))))) := by
    cases operation <;> rfl
  rw [cut, operationLabel_write]
  simp only [Cut.mapGaps, Cut.write, keyword, colon, spacer, none, if_true, List.append_assoc,
    List.nil_append]

/-- The opening tag of a link to a root type, up to its title. -/
theorem write_link (target title : String) (rest : List Char) :
    (Tag.opening .anchor [.style "field-type", .target target, .title title]).write ++ rest =
      targetOpening ++ (escape target.toList ++ '"' :: ((Attribute.title title).write ++ ['>'] ++
        rest)) := by
  have opening : targetOpening = '<' :: Element.anchor.tag.toList ++
      ((Attribute.style "field-type").write ++ " href=\"#".toList) := by decide +kernel
  have written : (Attribute.target target).write =
      " href=\"#".toList ++ (escape target.toList ++ ['"']) := List.append_assoc _ _ _
  rw [opening]
  simp only [Tag.write, Tag.content, List.flatMap_cons, List.flatMap_nil, written,
    List.append_assoc, List.cons_append, List.nil_append]

theorem tells_target (operation : Operation) {target : String} (title : String)
    (shown : target.toList ≠ []) :
    Tells (operationLabel operation ++
      [.opening .anchor [.style "field-type", .target target, .title title]])
      [⟨operation, escape target.toList⟩] := by
  intro run behindTag rest clear
  refine ⟨[], true, isRun_nil, ?_⟩
  have some : escape target.toList ≠ [] := fun none =>
    shown (escape_inj.mp (none.trans escape_nil.symm))
  have unquoted : '"' ∉ escape target.toList := markupChar_not_mem_escape rfl _
  have titleRun : '<' ∉ (Attribute.title title).write ++ ['>'] :=
    List.not_mem_append (Attribute.isRun_write rfl).less (by decide)
  rw [List.append_assoc, List.singleton_append, write_operationLabel,
    rootLinksBehind_run (isRun_gap behindTag clear).less, write_link,
    rootLinksBehind_target operation some unquoted, rootLinksBehind_run titleRun,
    List.singleton_append]

theorem tells_label (operation : Operation) {element : Element} {attributes : List Attribute}
    (plain : (Tag.opening element attributes).isPlain = true)
    (unlabelled : isLabel (.opening element attributes) = false)
    (unlinked : ∀ rest,
      targetOpening.isPrefixOf? ((Tag.opening element attributes).write ++ rest) = none) :
    Tells (operationLabel operation ++ [.opening element attributes]) [] := by
  intro run behindTag rest clear
  refine ⟨[], true, isRun_nil, ?_⟩
  rw [List.append_assoc, List.singleton_append, write_operationLabel,
    rootLinksBehind_run (isRun_gap behindTag clear).less,
    rootLinksBehind_label operation (unlinked _), rootLinksBehind_opening plain unlabelled,
    List.nil_append]

end GraphqlReference.Page
