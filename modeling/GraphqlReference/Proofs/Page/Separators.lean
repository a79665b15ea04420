import GraphqlReference.Proofs.Html.Blocks
import GraphqlReference.Proofs.Page.Items
import GraphqlReference.Proofs.Page.Layout

namespace GraphqlReference.Page

open Html

section

variable {α : Type} {description : α → Option String} {print : α → Except RenderError Section}

theorem isBlock_memberBlocks {list : List (Option String × Section)}
    (balanced : ∀ member ∈ list, member.2.Balanced) :
    ∀ block ∈ memberBlocks list, block.IsBlock := by
  intro block among
  rcases mem_separated among with rfl | ⟨member, inside, rfl⟩
  · exact .inline Fragment.emptyLine
  · exact .element .division [.style "item"] (balanced member inside)

/-- Members whose markup is balanced are shown as blocks of the outermost level. -/
theorem exists_memberBlocks {list : List α} {shown : Section}
    (printed : members description print list = .ok shown)
    (balanced : ∀ member content, print member = .ok content → content.Balanced) :
    ∃ contents, List.Forall₂
        (fun member content => print member = .ok content ∧ content.Balanced) list contents ∧
      shown = (memberBlocks ((list.map description).zip contents)).flatten ∧
      ∀ block ∈ memberBlocks ((list.map description).zip contents), block.IsBlock := by
  rw [members_eq] at printed
  obtain ⟨contents, printedAll, ⟨⟩⟩ := bind_eq_ok.mp printed
  have related := mapM_eq_ok.mp printedAll
  refine ⟨contents, related.imp fun member content here => ⟨here, balanced member content here⟩,
    rfl, isBlock_memberBlocks fun pair inside => ?_⟩
  obtain ⟨member, _, here⟩ := mem_of_forall₂ related (List.of_mem_zip inside).2
  exact balanced member pair.2 here

theorem balanced_members {list : List α} {shown : Section}
    (printed : members description print list = .ok shown)
    (balanced : ∀ member content, print member = .ok content → content.Balanced) :
    shown.Balanced := by
  obtain ⟨contents, _, rfl, blocks⟩ := exists_memberBlocks printed balanced
  exact Section.balanced_flatten blocks

end

theorem balanced_textBlock (text : List Char) : Section.Balanced (textBlock text) := by
  have lines : ∀ pieces : List (List Char), Section.Balanced
      (pieces.map (fun piece => .inline (descriptionLine piece)) ++ [.inline blockDelimiter]) := by
    intro pieces
    induction pieces with
    | nil => exact .inline .nil
    | cons piece rest ih => exact .inline ih
  have block : Section.Balanced (.opening [.opening .division [.style "description"]] ::
      (.inline blockDelimiter :: _) ++ .closing [.closing .division] :: []) :=
    .element (.inline (lines (Text.lineFeedPieces text))) .nil
  simpa only [textBlock_eq_tokens, List.cons_append, List.append_assoc, List.nil_append] using block

theorem balanced_memberDescription (description : Option String) :
    Section.Balanced (memberDescription description) := by
  unfold memberDescription
  split
  · exact .nil
  · split
    · exact .nil
    · split
      · exact balanced_textBlock _
      · exact .inline .nil

section

variable {schema : Schema} {shown : Section}

theorem balanced_argument {argument : Argument}
    (printed : Page.argument schema argument = .ok shown) : shown.Balanced := by
  obtain ⟨_, _, printed⟩ := bind_eq_ok.mp printed
  obtain ⟨_, _, printed⟩ := bind_eq_ok.mp printed
  obtain ⟨_, _, ⟨⟩⟩ := bind_eq_ok.mp printed
  exact (balanced_memberDescription argument.description).append (.inline .nil)

theorem balanced_argumentList {arguments : List Argument}
    (printed : argumentList schema arguments = .ok shown) : shown.Balanced := by
  unfold argumentList at printed
  split at printed
  · obtain ⟨⟩ := printed
    exact .nil
  · obtain ⟨inner, printedMembers, ⟨⟩⟩ := bind_eq_ok.mp printed
    have balanced : inner.Balanced :=
      balanced_members printedMembers fun _ _ => balanced_argument
    have list : Section.Balanced (.inline (Fragment.span "bracket-round" "(") ::
        (.opening [.opening .division [.style "arguments offset-1"]] :: inner ++
          .closing [.closing .division] :: [.inline (Fragment.span "bracket-round" ")")])) :=
      .inline (.element balanced (.inline .nil))
    simpa only [inline_span, List.cons_append, List.nil_append] using list

theorem balanced_field {field : Field} (printed : Page.field schema field = .ok shown) :
    shown.Balanced := by
  obtain ⟨arguments, printedArguments, printed⟩ := bind_eq_ok.mp printed
  obtain ⟨_, _, printed⟩ := bind_eq_ok.mp printed
  obtain ⟨_, _, ⟨⟩⟩ := bind_eq_ok.mp printed
  have labelled := (balanced_memberDescription field.description).append
    (.inline .nil : Section.Balanced [.inline (Fragment.span "field-name" field.name)])
  exact (labelled.append (balanced_argumentList printedArguments)).append (.inline .nil)

theorem balanced_enumItem {item : EnumItem} (printed : enumItem schema item = .ok shown) :
    shown.Balanced := by
  obtain ⟨_, _, ⟨⟩⟩ := bind_eq_ok.mp printed
  exact (balanced_memberDescription item.description).append (.inline .nil)

end

/-- The item of a member, as it is written. -/
def writtenItem (content : Section) : Markup Char :=
  .opening "<div class=\"item\">".toList :: content.write Piece.write ++
    [.closing "</div>".toList]

/-- The empty line between members, as it is written. -/
def writtenSeparator : Markup Char :=
  [.inline "<div class=\"line\"></div>".toList]

/-- The blocks that members are to be written as, each told by its description and its own
markup. -/
def writtenBlocks (shown : List (Option String × Section)) : List (Markup Char) :=
  separated showsEither writtenSeparator (fun member => writtenItem member.2) shown

/-- The tokens show each member, in the order of the list, as an item with its own balanced markup.
At the outermost level nothing stands beside the items but an empty line between two neighbours of
which at least one shows a description. -/
def IsSeparated {α : Type} (description : α → Option String)
    (print : α → Except RenderError Section) (list : List α) (tokens : Markup Char) : Prop :=
  ∃ contents, List.Forall₂
      (fun member content => print member = .ok content ∧ content.Balanced) list contents ∧
    tokens = (writtenBlocks ((list.map description).zip contents)).flatten ∧
    tokens.outerBlocks = writtenBlocks ((list.map description).zip contents)

theorem write_item (content : Section) :
    Markup.write Piece.write (item content) = writtenItem content := by
  have opening : Token.write Piece.write (.opening [.opening .division [.style "item"]]) =
      .opening "<div class=\"item\">".toList := by decide
  have closing : Token.write Piece.write (.closing [.closing .division]) =
      .closing "</div>".toList := by decide
  rw [item, Markup.write, List.map_append, List.map_cons, List.map_cons, List.map_nil, opening,
    closing]
  rfl

theorem write_emptyLine :
    Markup.write Piece.write [.inline Fragment.emptyLine] = writtenSeparator := by
  decide

theorem write_memberBlocks (shown : List (Option String × Section)) :
    (memberBlocks shown).map (Markup.write Piece.write) = writtenBlocks shown := by
  rw [memberBlocks, map_separated, write_emptyLine, writtenBlocks]
  simp only [write_item]

theorem isSeparated_members {α : Type} {description : α → Option String}
    {print : α → Except RenderError Section} {list : List α} {shown : Section}
    (balanced : ∀ member content, print member = .ok content → content.Balanced)
    (printed : members description print list = .ok shown) :
    IsSeparated description print list (shown.write Piece.write) := by
  obtain ⟨contents, related, rfl, blocks⟩ := exists_memberBlocks printed balanced
  have outermost : Markup.outerBlocks (Markup.write Piece.write
      (memberBlocks ((list.map description).zip contents)).flatten) =
        writtenBlocks ((list.map description).zip contents) := by
    rw [Markup.outerBlocks_write, Section.outerBlocks_flatten blocks, write_memberBlocks]
  refine ⟨contents, related, ?_, outermost⟩
  rw [← outermost, Markup.flatten_outerBlocks]

/-- The members of each kind of list are items of their own, separated at the descriptions that they
show. -/
theorem members_separated (schema : Schema) :
    (∀ fields shown, fieldMembers schema fields = .ok shown →
      IsSeparated Field.description (field schema) fields (shown.write Piece.write)) ∧
    (∀ arguments shown, argumentMembers schema arguments = .ok shown →
      IsSeparated Argument.description (argument schema) arguments (shown.write Piece.write)) ∧
    ∀ items shown, enumMembers schema items = .ok shown →
      IsSeparated EnumItem.description (enumItem schema) items (shown.write Piece.write) :=
  ⟨fun _ _ => isSeparated_members fun _ _ => balanced_field,
    fun _ _ => isSeparated_members fun _ _ => balanced_argument,
    fun _ _ => isSeparated_members fun _ _ => balanced_enumItem⟩

/-- A field with two arguments, one of them described, and a field without any description. -/
def fieldsWithArguments : List Field :=
  [⟨"a", none, .named "Query", [⟨"x", some "first", .named "Int", none, []⟩,
      ⟨"y", none, .named "Int", none, []⟩], []⟩,
    ⟨"b", none, .named "Query", [], []⟩]

/-- The empty line between two arguments stands inside the item of their field. -/
theorem members_separated_nested : ∃ shown,
    fieldMembers querySchema fieldsWithArguments = .ok shown ∧
      IsSeparated Field.description (field querySchema) fieldsWithArguments
        (shown.write Piece.write) ∧
      .inline Fragment.emptyLine ∈ shown ∧
      writtenSeparator ∉ Markup.outerBlocks (shown.write Piece.write) := by
  obtain ⟨shown, printed⟩ : ∃ shown, fieldMembers querySchema fieldsWithArguments = .ok shown :=
    ⟨_, rfl⟩
  refine ⟨shown, printed, (members_separated querySchema).1 _ _ printed, ?_⟩
  obtain ⟨⟩ := printed
  decide +kernel

end GraphqlReference.Page
