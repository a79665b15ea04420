import GraphqlReference.Proofs.Html.Arrangement
import GraphqlReference.Proofs.Html.Veil

namespace GraphqlReference.Html

namespace Fragment

/-- Content without any tag. -/
def isTagless (content : Fragment) : Bool :=
  content.all fun piece =>
    match piece with
    | .opening .. | .closing _ => false
    | .text _ | .quotes _ | .spacer => true

namespace Alike

variable {first first' second second' : Fragment}

theorem refl (fragment : Fragment) : Alike fragment fragment :=
  fun _ => rfl

theorem openBehind (alike : Alike first first') (opened : List (List Char)) :
    first.openBehind opened = first'.openBehind opened := by
  rw [← openBehind_veil, alike opened, openBehind_veil]

theorem append (alike : Alike first first') (alike' : Alike second second') :
    Alike (first ++ second) (first' ++ second') := by
  intro opened
  rw [veil_append, veil_append, alike opened, alike.openBehind opened, alike' _]

theorem cons (piece : Piece) (alike : Alike first first') :
    Alike (piece :: first) (piece :: first') :=
  append (refl [piece]) alike

theorem opening {element : Element} {attributes attributes' : List Attribute}
    (same : attributes.map Attribute.untitled = attributes'.map Attribute.untitled) :
    Alike [.opening element attributes] [.opening element attributes'] := by
  intro opened
  simp only [veil, Piece.veil, same]

theorem link {style : String} {target : Option String} {title title' : String}
    (alike : Alike first first') :
    Alike (link style target title first) (link style target title' first') := by
  have same : (Attribute.style style :: target.toList.map Attribute.target ++
      [Attribute.title title]).map Attribute.untitled =
        (Attribute.style style :: target.toList.map Attribute.target ++
          [Attribute.title title']).map Attribute.untitled := by
    simp only [List.map_append, List.map_cons, List.map_nil, Attribute.untitled]
  exact (opening same).append (alike.append (refl _))

/-- Fragments that are alike show something if any of them does. -/
theorem write_eq_nil (alike : Alike first first') : first.write = [] ↔ first'.write = [] := by
  rw [← write_veil_eq_nil, alike [], write_veil_eq_nil]

end Alike

variable {opened : List (List Char)} {content content' : Fragment}

theorem veil_tagless (concealed : conceals opened = true) (tagless : content.isTagless = true) :
    content.veil opened = [] ∧ content.openBehind opened = opened := by
  induction content with
  | nil => exact ⟨rfl, rfl⟩
  | cons piece rest ih =>
      obtain ⟨here, behind⟩ := Bool.and_eq_true_iff.mp tagless
      obtain ⟨hidden, same⟩ := ih behind
      cases piece with
      | opening | closing => cases here
      | text | quotes | spacer =>
          rw [veil, openBehind_cons]
          simp only [Piece.veil, Piece.openBehind, concealed, if_true, hidden, same,
            List.append_nil, and_self]

theorem openBehind_division {tag : List Char}
    (named : tag.takeWhile (· ≠ ' ') = "div".toList) (opened : List (List Char)) :
    Html.openBehind opened tag = tag :: opened := by
  have opens : tag ≠ "/div".toList := fun same => absurd (same ▸ named) (by decide)
  rw [Html.openBehind, if_neg opens, if_pos named]

theorem veil_line (described : descriptionTag ∈ opened) (tagless : content.isTagless = true) :
    (line content).veil opened = emptyLine ∧ (line content).openBehind opened = opened := by
  have named : lineTag.takeWhile (· ≠ ' ') = "div".toList := by decide
  have inside : (Piece.opening .division [.style "line"]).openBehind opened = lineTag :: opened :=
    openBehind_division named opened
  have concealed : conceals (lineTag :: opened) = true := by
    simp [conceals, described]
  obtain ⟨hidden, same⟩ := veil_tagless concealed tagless
  have split : line content =
      .opening .division [.style "line"] :: (content ++ [.closing .division]) := rfl
  rw [split, veil, openBehind_cons, inside, veil_append, openBehind_append, hidden, same]
  exact ⟨rfl, rfl⟩

theorem openBehind_description (opened : List (List Char)) :
    (Piece.opening .division [.style "description"]).openBehind opened =
      descriptionTag :: opened := by
  have named : descriptionTag.takeWhile (· ≠ ' ') = "div".toList := by decide
  exact openBehind_division named opened

/-- A description on a single line does not show behind a veil. -/
theorem alike_description (tagless : content.isTagless = true)
    (tagless' : content'.isTagless = true) :
    Alike (division "description" (line content)) (division "description" (line content')) := by
  intro opened
  have split : ∀ content, division "description" (line content) =
      .opening .division [.style "description"] :: (line content ++ [.closing .division]) :=
    fun _ => rfl
  obtain ⟨hidden, same⟩ := veil_line (List.mem_cons_self (l := opened)) tagless
  obtain ⟨hidden', same'⟩ := veil_line (List.mem_cons_self (l := opened)) tagless'
  rw [split, split, veil, veil, openBehind_description, veil_append, veil_append, hidden, hidden',
    same, same']

end Fragment

namespace Section

/-- Sections that are the same behind any veil when they are laid out. The layout of a token depends
on those in front of it, so they are compared in front of whatever may follow them. -/
def Alike (markup markup' : Section) : Prop :=
  ∀ more more', (∀ depth started,
      Fragment.Alike (laidOut depth started more) (laidOut depth started more')) →
    ∀ depth started, Fragment.Alike (laidOut depth started (markup ++ more))
      (laidOut depth started (markup' ++ more'))

theorem veil_laidOut_cons {token : Token Piece} (shown : Fragment.write token.content ≠ [])
    (depth : Nat) (started : Bool) (rest : Section) (opened : List (List Char)) :
    (laidOut depth started (token :: rest)).veil opened =
      (Piece.text (layout (token.depth depth) started)).veil opened ++
        (Fragment.veil opened token.content ++
          (laidOut (token.depthAfter (token.depth depth)) true rest).veil
            (Fragment.openBehind opened token.content)) := by
  have started' : ∀ blanks,
      (started || !(blanks ++ Fragment.write token.content).isEmpty) = true := by
    simp [shown]
  rw [laidOut, started', Fragment.veil, Piece.openBehind, Fragment.veil_append]

namespace Alike

variable {first first' second second' : Section}

theorem append (alike : Alike first first') (alike' : Alike second second') :
    Alike (first ++ second) (first' ++ second') := by
  intro more more' behind
  rw [List.append_assoc, List.append_assoc]
  exact alike _ _ (alike' more more' behind)

theorem token {token token' : Token Piece}
    (depth : ∀ around, token.depth around = token'.depth around)
    (depthAfter : ∀ own, token.depthAfter own = token'.depthAfter own)
    (alike : Fragment.Alike token.content token'.content) : Alike [token] [token'] := by
  intro more more' behind around started
  have empty : ∀ blanks, (blanks ++ Fragment.write token.content).isEmpty =
      (blanks ++ Fragment.write token'.content).isEmpty := by
    intro blanks
    rw [Bool.eq_iff_iff, List.isEmpty_iff, List.isEmpty_iff, List.append_eq_nil_iff,
      List.append_eq_nil_iff, alike.write_eq_nil]
  rw [List.singleton_append, List.singleton_append, laidOut, laidOut, depth, depthAfter, empty]
  exact (alike.append (behind _ _)).cons _

theorem refl (markup : Section) : Alike markup markup := by
  induction markup with
  | nil => exact fun _ _ behind => behind
  | cons first rest ih => exact (token (fun _ => rfl) (fun _ => rfl) (.refl _)).append ih

theorem inline {content content' : Fragment} (alike : Fragment.Alike content content') :
    Alike [.inline content] [.inline content'] :=
  token (fun _ => rfl) (fun _ => rfl) alike

theorem laidOut (alike : Alike first first') :
    Fragment.Alike (Section.laidOut 0 false first) (Section.laidOut 0 false first') := by
  have whole := alike [] [] (fun _ _ => .refl _) 0 false
  rwa [List.append_nil, List.append_nil] at whole

end Alike

/-- Lines of the page, a token each. -/
def lines (contents : List Fragment) : Section :=
  contents.map fun content => .inline (Fragment.line content)

/-- Lines in a division for a description. -/
def describing (contents : List Fragment) : Section :=
  .opening [.opening .division [.style "description"]] :: lines contents ++
    [.closing [.closing .division]]

/-- Inside a description, all lines look the same behind a veil. -/
theorem veil_laidOut_line {opened : List (List Char)} {content : Fragment}
    (described : descriptionTag ∈ opened) (tagless : content.isTagless = true) (depth : Nat)
    (started : Bool) (rest : Section) :
    (laidOut depth started (.inline (Fragment.line content) :: rest)).veil opened =
      (Piece.text (layout depth started)).veil opened ++
        (Fragment.emptyLine ++ (laidOut depth true rest).veil opened) := by
  have shown : Fragment.write (Token.inline (Fragment.line content)).content ≠ [] :=
    List.cons_ne_nil _ _
  obtain ⟨hidden, kept⟩ := Fragment.veil_line described tagless
  rw [veil_laidOut_cons shown, Token.content, hidden, kept]
  rfl

section

variable {contents contents' : List Fragment} {more more' : Section}

theorem veil_lines (same : contents.length = contents'.length)
    (tagless : ∀ content ∈ contents, content.isTagless = true)
    (tagless' : ∀ content ∈ contents', content.isTagless = true)
    (behind : ∀ depth started,
      Fragment.Alike (laidOut depth started more) (laidOut depth started more'))
    (depth : Nat) (started : Bool) {opened : List (List Char)}
    (described : descriptionTag ∈ opened) :
    (laidOut depth started (lines contents ++ more)).veil opened =
      (laidOut depth started (lines contents' ++ more')).veil opened := by
  induction contents generalizing contents' started with
  | nil =>
      obtain rfl := List.length_eq_zero_iff.mp same.symm
      exact behind depth started opened
  | cons content contents ih =>
      cases contents' with
      | nil => cases same
      | cons content' contents' =>
          obtain ⟨here, later⟩ := List.forall_mem_cons.mp tagless
          obtain ⟨here', later'⟩ := List.forall_mem_cons.mp tagless'
          have rest := ih (Nat.succ.inj same) later later' true
          have line := veil_laidOut_line described here depth started (lines contents ++ more)
          have line' := veil_laidOut_line described here' depth started (lines contents' ++ more')
          exact line.trans ((congrArg _ (congrArg _ rest)).trans line'.symm)

/-- Descriptions of as many lines do not show behind a veil. -/
theorem alike_describing (same : contents.length = contents'.length)
    (tagless : ∀ content ∈ contents, content.isTagless = true)
    (tagless' : ∀ content ∈ contents', content.isTagless = true) :
    Alike (describing contents) (describing contents') := by
  intro more more' behind depth started opened
  let opening : Token Piece := .opening [.opening .division [.style "description"]]
  have shown : Fragment.write opening.content ≠ [] := List.cons_ne_nil _ _
  have split : ∀ contents more, describing contents ++ more =
      opening :: (lines contents ++ (.closing [.closing .division] :: more)) := by
    intro contents more
    simp [describing, opening]
  have closing : Alike [.closing [.closing .division]] [.closing [.closing .division]] := .refl _
  have rest := veil_lines same tagless tagless' (closing more more' behind) (depth + 1) true
    (List.mem_cons_self (l := opened))
  have behindOpening : Fragment.openBehind opened opening.content = descriptionTag :: opened :=
    Fragment.openBehind_description opened
  rw [split, split, veil_laidOut_cons shown, veil_laidOut_cons shown, behindOpening]
  exact congrArg _ (congrArg _ rest)

end

end Section

end GraphqlReference.Html
