import GraphqlReference.Page.Member
import GraphqlReference.Proofs.Outcome

namespace GraphqlReference.Page

open Html

theorem inline_descriptionLine (piece : List Char) :
    Markup.inline (descriptionLine piece) = [.inline (descriptionLine piece)] := by
  unfold descriptionLine
  dsimp only
  split <;> rfl

theorem textBlock_eq_tokens (text : List Char) : textBlock text =
    .opening [.opening .division [.style "description"]] :: .inline blockDelimiter ::
      (Text.lineFeedPieces text).map (fun piece => .inline (descriptionLine piece)) ++
      [.inline blockDelimiter, .closing [.closing .division]] := by
  have delimiter : Markup.inline blockDelimiter = [.inline blockDelimiter] := rfl
  simp only [textBlock, delimiter, inline_descriptionLine, List.cons_append, List.nil_append,
    List.append_assoc]
  rw [List.map_eq_flatMap]

section

variable {α β γ : Type}

/-- Entries one after another, with a mark between neighbours that are to be kept apart. -/
def separated (apart : α → α → Bool) (mark : β) (entry : α → β) : List α → List β
  | [] => []
  | [last] => [entry last]
  | first :: second :: rest =>
    entry first :: ((if apart first second then [mark] else []) ++
      separated apart mark entry (second :: rest))

theorem map_separated (apart : α → α → Bool) (mark : β) (entry : α → β) (change : β → γ)
    (list : List α) : (separated apart mark entry list).map change =
      separated apart (change mark) (fun value => change (entry value)) list := by
  induction list with
  | nil => rfl
  | cons first rest ih =>
      cases rest with
      | nil => rfl
      | cons second rest =>
          rw [separated, separated, List.map_cons, List.map_append, ih]
          split <;> rfl

theorem mem_separated {apart : α → α → Bool} {mark : β} {entry : α → β} {list : List α} {shown : β}
    (member : shown ∈ separated apart mark entry list) :
    shown = mark ∨ ∃ value ∈ list, shown = entry value := by
  induction list with
  | nil => exact absurd member List.not_mem_nil
  | cons first rest ih =>
      cases rest with
      | nil => exact .inr ⟨first, List.mem_cons_self, List.mem_singleton.mp member⟩
      | cons second rest =>
          rcases List.mem_cons.mp member with here | later
          · exact .inr ⟨first, List.mem_cons_self, here⟩
          · rcases List.mem_append.mp later with between | behind
            · split at between
              · exact .inl (List.mem_singleton.mp between)
              · exact absurd between List.not_mem_nil
            · rcases ih behind with marked | ⟨value, inside, same⟩
              · exact .inl marked
              · exact .inr ⟨value, List.mem_cons_of_mem _ inside, same⟩

end

/-- Whether a member shows a description. -/
def showsDescription (description : Option String) : Bool :=
  !(memberDescription description).isEmpty

/-- A description shows exactly if it counts as one. -/
theorem isDescribed_eq_showsDescription (description : Option String) :
    isDescribed description = showsDescription description := by
  cases description with
  | none => rfl
  | some text =>
      unfold isDescribed showsDescription memberDescription
      dsimp only
      cases text.isEmpty with
      | true => rfl
      | false => cases hasLineBreak text.toList <;> rfl

/-- Whether one of two members shows a description. Their own markup does not matter for that. -/
def showsEither (first second : Option String × Section) : Bool :=
  showsDescription first.1 || showsDescription second.1

/-- The blocks that members are shown as, each told by its description and its own markup. -/
def memberBlocks (shown : List (Option String × Section)) : List Section :=
  separated showsEither [.inline Fragment.emptyLine] (fun member => item member.2) shown

theorem flatten_memberBlocks_cons (first second : Option String × Section)
    (rest : List (Option String × Section)) :
    (memberBlocks (first :: second :: rest)).flatten = item first.2 ++
      (separator (isDescribed first.1) (isDescribed second.1) ++
        (memberBlocks (second :: rest)).flatten) := by
  have between : (if showsEither first second then [[.inline Fragment.emptyLine]] else []).flatten =
      separator (isDescribed first.1) (isDescribed second.1) := by
    rw [showsEither, separator, isDescribed_eq_showsDescription, isDescribed_eq_showsDescription]
    split <;> rfl
  rw [memberBlocks, separated, List.flatten_cons, List.flatten_append, between]
  rfl

section

variable {α : Type} {description : α → Option String} {print : α → Except RenderError Section}

/-- What follows a member depends on that member only by its description. -/
theorem furtherMembers_eq (previous : Option String) (content : Section) (list : List α) :
    (furtherMembers description print (isDescribed previous) list >>= fun more =>
      .ok (item content ++ more)) =
    (list.mapM print >>= fun contents =>
      .ok (memberBlocks ((previous, content) :: (list.map description).zip contents)).flatten) := by
  induction list generalizing previous content with
  | nil => rfl
  | cons member rest ih =>
      rw [List.mapM_cons, furtherMembers]
      cases print member with
      | error fault => rfl
      | ok own =>
          let between := separator (isDescribed previous) (isDescribed (description member))
          let further := furtherMembers description print (isDescribed (description member)) rest
          have moved : ((further >>= fun more => .ok (between ++ item own ++ more)) >>= fun more =>
                (.ok (item content ++ more) : Except RenderError Section)) =
              (further >>= fun more => .ok (item own ++ more)) >>= fun more =>
                .ok (item content ++ (between ++ more)) := by
            cases further with
            | error fault => rfl
            | ok more =>
                have same := List.append_assoc between (item own) more
                exact congrArg (fun shown => Except.ok (item content ++ shown)) same
          refine moved.trans ?_
          rw [ih]
          cases rest.mapM print with
          | error fault => rfl
          | ok contents =>
              have put := flatten_memberBlocks_cons (previous, content) (description member, own)
                ((rest.map description).zip contents)
              exact congrArg Except.ok put.symm

/-- Members are printed one by one in their order, and what they show is then put together. -/
theorem members_eq (list : List α) : members description print list =
    list.mapM print >>= fun contents =>
      .ok (memberBlocks ((list.map description).zip contents)).flatten := by
  cases list with
  | nil => rfl
  | cons member rest =>
      rw [List.mapM_cons, members]
      cases print member with
      | error fault => rfl
      | ok own =>
          refine (furtherMembers_eq (description member) own rest).trans ?_
          cases rest.mapM print <;> rfl

end

end GraphqlReference.Page
