import GraphqlReference.Proofs.Html.Settling

namespace GraphqlReference.Html

/-!
The tokens of a section, each on a line of its own. Where the pieces of all tokens follow the
rules, and every token begins and ends where nothing stands behind the last tag, the text of the
section is laid out by the rules.
-/

/-- The pieces of a section from place to place, token by token. An empty line is a token of its
own. -/
inductive Section.Flows (rules : Rules) : Place → Section → Place → Prop
  | nil {place : Place} : Flows rules place [] place
  | token {opened : List Element} {run : Run} {token : Token Piece} {rest : Section}
      {between behind : Place} :
      run.isOpen = true → Flow rules ⟨opened, run.loosen⟩ token.content between →
      Flows rules between rest behind → Flows rules ⟨opened, run⟩ (token :: rest) behind
  | emptyLine {opened : List Element} {fresh : Bool} {rest : Section} {behind : Place} :
      Flows rules ⟨opened, .bare false⟩ rest behind →
      Flows rules ⟨opened, .bare fresh⟩ (.inline Fragment.emptyLine :: rest) behind

/-- A token as a finished document shows it. -/
def Token.settled (token : Token Char) : List Char :=
  if token.content = Fragment.emptyLine.write then Fragment.blankLine.write else token.content

/-- The text of a section without its layout. -/
def Section.settled (markup : Section) : List Char :=
  (Markup.write Piece.write markup).flatMap Token.settled

theorem Token.content_write (token : Token Piece) :
    (token.write Piece.write).content = Fragment.write token.content := by
  cases token <;> rfl

theorem Token.depth_write (token : Token Piece) (around : Nat) :
    (token.write Piece.write).depth around = token.depth around := by
  cases token <;> rfl

theorem Token.depthAfter_write (token : Token Piece) (own : Nat) :
    (token.write Piece.write).depthAfter own = token.depthAfter own := by
  cases token <;> rfl

theorem Section.settled_cons (token : Token Piece) (rest : Section) :
    Section.settled (token :: rest) = (token.write Piece.write).settled ++ Section.settled rest :=
  List.flatMap_cons

/-- What the layout puts in front of a token of this depth. -/
def layout (own : Nat) (started : Bool) : List Char :=
  (if started then ['\n'] else []) ++ List.replicate (2 * own) ' '

/-- A section with its layout, in one fragment. -/
def Section.laidOut (depth : Nat) (started : Bool) : Section → Fragment
  | [] => []
  | token :: rest =>
    let own := token.depth depth
    let line := List.replicate (2 * own) ' ' ++ Fragment.write token.content
    .text (layout own started) ::
      (token.content ++ laidOut (token.depthAfter own) (started || !line.isEmpty) rest)

theorem isBlank_layout (own : Nat) (started : Bool) :
    ∀ c ∈ layout own started, Text.isBlank c = true := by
  intro c member
  rcases List.mem_append.mp member with lineEnd | space
  · cases started
    · exact absurd lineEnd List.not_mem_nil
    · rw [List.mem_singleton.mp lineEnd]
      decide
  · rw [List.eq_of_mem_replicate space]
    decide

theorem Section.write_laidOut (depth : Nat) (started : Bool) (markup : Section) :
    (Section.laidOut depth started markup).write =
      Markup.renderFrom depth started (Markup.write Piece.write markup) := by
  induction markup generalizing depth started with
  | nil => rfl
  | cons token rest ih =>
      have written : (Piece.text (layout (token.depth depth) started)).write =
          layout (token.depth depth) started := escape_blanks (isBlank_layout _ started)
      rw [Section.laidOut, Fragment.write_cons, Fragment.write_append, ih, written]
      simp only [Markup.write, List.map_cons, Markup.renderFrom, Token.content_write,
        Token.depth_write, Token.depthAfter_write, List.append_assoc, layout]

section

variable {rules : Rules}

/-- A section is laid out by the rules. What is to be seen of it is its text without the layout, if
every text that may stand alone is visible. -/
theorem Section.Flows.laidOut {place behind : Place} {markup : Section}
    (flows : Section.Flows rules place markup behind) (depth : Nat) (started : Bool) :
    ∃ shown, Laid rules place (Section.laidOut depth started markup) shown behind ∧
      ((∀ text, rules.shows text → Text.isVisible text = true) →
        shown.write = Section.settled markup) := by
  induction flows generalizing depth started with
  | nil => exact ⟨[], .nil, fun _ => rfl⟩
  | @token _ run token rest _ _ inGap flow _ ih =>
      obtain ⟨shown, behind, settled⟩ := ih _ _
      refine ⟨token.content ++ shown,
        .layout inGap (isBlank_layout _ started) (flow.append behind), fun visible => ?_⟩
      have different := flow.ne_emptyLine visible inGap
      have kept : (token.write Piece.write).settled = Fragment.write token.content := by
        rw [Token.settled, Token.content_write, if_neg different]
      rw [Fragment.write_append, settled visible, Section.settled_cons, kept]
  | @emptyLine _ fresh rest _ _ ih =>
      obtain ⟨shown, behind, settled⟩ := ih _ _
      refine ⟨Fragment.blankLine ++ shown,
        .layout rfl (isBlank_layout _ started) (.emptyLine rfl behind), fun visible => ?_⟩
      rw [Fragment.write_append, settled visible, Section.settled_cons]
      congr 1

theorem Section.Flows.laid {place behind : Place} {markup : Section}
    (flows : Section.Flows rules place markup behind) (depth : Nat) (started : Bool) :
    ∃ laid shown, Laid rules place laid shown behind ∧
      laid.write = Markup.renderFrom depth started (Markup.write Piece.write markup) ∧
      ((∀ text, rules.shows text → Text.isVisible text = true) →
        shown.write = Section.settled markup) := by
  obtain ⟨shown, laid, settled⟩ := flows.laidOut depth started
  exact ⟨_, shown, laid, Section.write_laidOut depth started markup, settled⟩

theorem Section.Flows.append {place between behind : Place} {first second : Section}
    (flows : Section.Flows rules place first between)
    (flows' : Section.Flows rules between second behind) :
    Section.Flows rules place (first ++ second) behind := by
  induction flows with
  | nil => exact flows'
  | token inGap flow _ ih => exact .token inGap flow (ih flows')
  | emptyLine _ ih => exact .emptyLine (ih flows')

/-- Tokens of whole elements. -/
def Section.Whole (rules : Rules) (markup : Section) : Prop :=
  ∀ opened, Section.Flows rules ⟨opened, .bare false⟩ markup ⟨opened, .bare false⟩

variable {first second markup : Section} {content : Fragment}

theorem Section.whole_nil : Section.Whole rules [] :=
  fun _ => .nil

theorem Section.Whole.append (whole : Section.Whole rules first)
    (whole' : Section.Whole rules second) : Section.Whole rules (first ++ second) :=
  fun opened => (whole opened).append (whole' opened)

theorem Section.whole_flatten {blocks : List Section}
    (whole : ∀ block ∈ blocks, Section.Whole rules block) :
    Section.Whole rules blocks.flatten := by
  induction blocks with
  | nil => exact Section.whole_nil
  | cons block blocks ih =>
      obtain ⟨here, others⟩ := List.forall_mem_cons.mp whole
      exact here.append (ih others)

theorem Parted.whole_cons (parted : Parted rules content) (whole : Section.Whole rules markup) :
    Section.Whole rules (.inline content :: markup) :=
  fun opened => .token rfl (parted opened (.loose false) rfl rfl) (whole opened)

theorem Closed.whole_cons (closed : Closed rules content) (whole : Section.Whole rules markup) :
    Section.Whole rules (.inline content :: markup) :=
  closed.parted.whole_cons whole

theorem Closed.whole (closed : Closed rules content) : Section.Whole rules [.inline content] :=
  closed.whole_cons Section.whole_nil

theorem Section.whole_emptyLine : Section.Whole rules [.inline Fragment.emptyLine] :=
  fun _ => .emptyLine .nil

/-- What an element holds that is no line. -/
theorem Section.Whole.element {element : Element} {attributes : List Attribute}
    (whole : Section.Whole rules markup) (allowed : rules.opens element attributes)
    (other : opensLine element attributes = false) :
    Section.Whole rules
      (.opening [.opening element attributes] :: markup ++ [.closing [.closing element]]) := by
  intro opened
  have opening : Step rules ⟨opened, .loose false⟩ (.opening element attributes)
      ⟨element :: opened, .bare false⟩ := other ▸ .opening allowed
  exact .token rfl opening.flow
    ((whole (element :: opened)).append (.token rfl (Step.closing rfl).flow .nil))

/-- What may end a line: a fragment of whole elements, or one with a non-breaking space behind. -/
def Trailing (rules : Rules) (fragment : Fragment) : Prop :=
  ∀ opened, ∃ run, run.isOpen = true ∧ run.isFresh = false ∧
    Flow rules ⟨opened, .loose false⟩ fragment ⟨opened, run⟩

theorem Parted.trailing (parted : Parted rules content) : Trailing rules content :=
  fun opened => ⟨.bare false, rfl, rfl, parted opened (.loose false) rfl rfl⟩

theorem Parted.trailing_spacer (parted : Parted rules content) :
    Trailing rules (content ++ [.spacer]) :=
  fun opened => ⟨.spaced, rfl, rfl,
    (parted opened (.loose false) rfl rfl).append (Step.spacer rfl).flow⟩

/-- What a line holds that begins with a token of whole elements. -/
theorem Section.Whole.line {ending : Fragment} (closed : Closed rules content)
    (whole : Section.Whole rules markup) (trailing : Trailing rules ending) :
    Section.Whole rules (.opening [.opening .division [.style "line"]] :: .inline content ::
      markup ++ [.inline ending, .closing [.closing .division]]) := by
  intro opened
  have opening : Step rules ⟨opened, .loose false⟩ (.opening .division [.style "line"])
      ⟨.division :: opened, .bare (opensLine .division [.style "line"])⟩ :=
    .opening (rules.styled (by decide) (by decide))
  obtain ⟨run, inGap, seen, flow⟩ := trailing (.division :: opened)
  have closing : Step rules ⟨.division :: opened, run.loosen⟩ (.closing .division)
      ⟨opened, .bare false⟩ := by
    refine .closing ?_
    cases run <;> exact seen
  exact .token rfl opening.flow (.token rfl (closed _) ((whole (.division :: opened)).append
    (.token rfl flow (.token inGap closing.flow .nil))))

end

end GraphqlReference.Html
