import GraphqlReference.Proofs.Html.EmptyLine
import GraphqlReference.Proofs.Text.Lines

namespace GraphqlReference.Html

/-!
How pieces may follow each other. A place in a page is told by the elements that are open there
and by what stands behind the last tag. A page is laid out by blanks and empty lines that a
finished document does not show, and these may come only where nothing stands behind the last tag.
-/

/-- What stands behind the last tag: nothing, blanks of the layout, a non-breaking space, text
that may begin with quotation marks, or text that ends with some. Where there is nothing to be
seen yet, it is told whether the last tag opens a line. -/
inductive Run where
  | bare (fresh : Bool)
  | loose (fresh : Bool)
  | spaced
  | filled
  | shut
  deriving DecidableEq, Repr

def Run.isEmpty : Run → Bool
  | bare _ | loose _ => true
  | _ => false

/-- Whether a line has been opened and shows nothing yet. -/
def Run.isFresh : Run → Bool
  | bare fresh | loose fresh => fresh
  | _ => false

/-- Whether blanks of the layout may follow. -/
def Run.isOpen : Run → Bool
  | bare _ | loose _ | spaced => true
  | _ => false

/-- The same with blanks of the layout behind it. -/
def Run.loosen : Run → Run
  | bare fresh => loose fresh
  | run => run

structure Place where
  opened : List Element
  run : Run
  deriving DecidableEq, Repr

def opensLine (element : Element) (attributes : List Attribute) : Bool :=
  (Tag.opening element attributes).write = lineOpening

/-- The opening tags of a page, and the texts that may stand alone between two tags. Any element but
a section may be opened for its style alone. -/
structure Rules where
  opens : Element → List Attribute → Prop
  shows : List Char → Prop
  plain : ∀ {element attributes}, opens element attributes → attributes.all Attribute.isPlain = true
  styled : ∀ {element style}, element ≠ .region → (Attribute.style style).isPlain = true →
    opens element [.style style]
  visible : ∀ {text}, Text.isVisible text = true → shows text

inductive Step (rules : Rules) : Place → Piece → Place → Prop
  | opening {opened : List Element} {run : Run} {element : Element} {attributes : List Attribute} :
      rules.opens element attributes →
      Step rules ⟨opened, run⟩ (.opening element attributes)
        ⟨element :: opened, .bare (opensLine element attributes)⟩
  | closing {opened : List Element} {run : Run} {element : Element} : run.isFresh = false →
      Step rules ⟨element :: opened, run⟩ (.closing element) ⟨opened, .bare false⟩
  | spacer {opened : List Element} {run : Run} : run.isEmpty = true →
      Step rules ⟨opened, run⟩ .spacer ⟨opened, .spaced⟩
  | text {opened : List Element} {fresh : Bool} {content : List Char} : rules.shows content →
      Step rules ⟨opened, .bare fresh⟩ (.text content) ⟨opened, .filled⟩
  | moreText {opened : List Element} {content : List Char} :
      Step rules ⟨opened, .filled⟩ (.text content) ⟨opened, .filled⟩
  | quotes {opened : List Element} {fresh : Bool} {count : Nat} : 0 < count →
      Step rules ⟨opened, .bare fresh⟩ (.quotes count) ⟨opened, .filled⟩
  | lastQuotes {opened : List Element} {count : Nat} :
      Step rules ⟨opened, .filled⟩ (.quotes count) ⟨opened, .shut⟩

/-- A fragment as it is laid out, beside the fragment that a finished document shows of it. -/
inductive Laid (rules : Rules) : Place → Fragment → Fragment → Place → Prop
  | nil {place : Place} : Laid rules place [] [] place
  | piece {place between behind : Place} {piece : Piece} {laid shown : Fragment} :
      Step rules place piece between → Laid rules between laid shown behind →
      Laid rules place (piece :: laid) (piece :: shown) behind
  | layout {opened : List Element} {run : Run} {blanks : List Char} {laid shown : Fragment}
      {behind : Place} : run.isOpen = true → (∀ c ∈ blanks, Text.isBlank c = true) →
      Laid rules ⟨opened, run.loosen⟩ laid shown behind →
      Laid rules ⟨opened, run⟩ (.text blanks :: laid) shown behind
  | emptyLine {opened : List Element} {run : Run} {laid shown : Fragment} {behind : Place} :
      run.isEmpty = true → Laid rules ⟨opened, .bare false⟩ laid shown behind →
      Laid rules ⟨opened, run⟩ (Fragment.emptyLine ++ laid) (Fragment.blankLine ++ shown) behind

/-- A fragment that shows all it is laid out with. -/
abbrev Flow (rules : Rules) (place : Place) (fragment : Fragment) (behind : Place) : Prop :=
  Laid rules place fragment fragment behind

section

variable {rules : Rules}

theorem Laid.append {place between behind : Place} {laid laid' shown shown' : Fragment}
    (first : Laid rules place laid shown between)
    (second : Laid rules between laid' shown' behind) :
    Laid rules place (laid ++ laid') (shown ++ shown') behind := by
  induction first with
  | nil => exact second
  | piece step _ ih => exact .piece step (ih second)
  | layout inGap blank _ ih => exact .layout inGap blank (ih second)
  | emptyLine empty _ ih =>
      rw [List.append_assoc, List.append_assoc]
      exact .emptyLine empty (ih second)

theorem Step.flow {place behind : Place} {piece : Piece} (step : Step rules place piece behind) :
    Flow rules place [piece] behind :=
  .piece step .nil

theorem Laid.isPlain {place behind : Place} {laid shown : Fragment}
    (flow : Laid rules place laid shown behind) :
    ∀ piece ∈ laid, piece.isPlain = true := by
  induction flow with
  | nil => exact fun _ member => absurd member List.not_mem_nil
  | piece step _ ih =>
      refine List.forall_mem_cons.mpr ⟨?_, ih⟩
      cases step with
      | opening allowed => exact rules.plain allowed
      | closing | spacer | text | moreText | quotes | lastQuotes => rfl
  | layout _ _ _ ih => exact List.forall_mem_cons.mpr ⟨rfl, ih⟩
  | emptyLine _ _ ih =>
      have line : ∀ piece ∈ Fragment.emptyLine, piece.isPlain = true := by decide
      exact List.forall_mem_append.mpr ⟨line, ih⟩

/-- A fragment of whole elements, which may follow anything. -/
def Closed (rules : Rules) (fragment : Fragment) : Prop :=
  ∀ place, Flow rules place fragment ⟨place.opened, .bare false⟩

/-- A fragment of whole elements that a non-breaking space may keep apart from what comes before. -/
def Parted (rules : Rules) (fragment : Fragment) : Prop :=
  ∀ opened run, run.isEmpty = true → run.isFresh = false →
    Flow rules ⟨opened, run⟩ fragment ⟨opened, .bare false⟩

/-- A fragment that may be empty or else is parted. -/
def Spaced (rules : Rules) (fragment : Fragment) : Prop :=
  ∀ opened, Flow rules ⟨opened, .bare false⟩ fragment ⟨opened, .bare false⟩

/-- What may stand between the tags of an element. -/
def Filling (rules : Rules) (fragment : Fragment) : Prop :=
  ∀ opened fresh, ∃ run, run.isFresh = false ∧
    Flow rules ⟨opened, .bare fresh⟩ fragment ⟨opened, run⟩

/-- What may stand between two fragments of whole elements. -/
def Joint (rules : Rules) (fragment : Fragment) : Prop :=
  ∀ opened, ∃ run, Flow rules ⟨opened, .bare false⟩ fragment ⟨opened, run⟩

variable {first second third fragment : Fragment}

theorem Closed.parted (closed : Closed rules fragment) : Parted rules fragment :=
  fun opened run _ _ => closed ⟨opened, run⟩

theorem Parted.spaced (parted : Parted rules fragment) : Spaced rules fragment :=
  fun opened => parted opened (.bare false) rfl rfl

theorem Closed.spaced (closed : Closed rules fragment) : Spaced rules fragment :=
  closed.parted.spaced

theorem Closed.filling (closed : Closed rules fragment) : Filling rules fragment :=
  fun opened fresh => ⟨.bare false, rfl, closed ⟨opened, .bare fresh⟩⟩

theorem Spaced.joint (spaced : Spaced rules fragment) : Joint rules fragment :=
  fun opened => ⟨.bare false, spaced opened⟩

theorem spaced_nil : Spaced rules [] :=
  fun _ => .nil

theorem Closed.append (closed : Closed rules first) (spaced : Spaced rules second) :
    Closed rules (first ++ second) :=
  fun place => (closed place).append (spaced place.opened)

theorem Parted.append (parted : Parted rules first) (spaced : Spaced rules second) :
    Parted rules (first ++ second) :=
  fun opened run empty seen => (parted opened run empty seen).append (spaced opened)

theorem Spaced.append (spaced : Spaced rules first) (spaced' : Spaced rules second) :
    Spaced rules (first ++ second) :=
  fun opened => (spaced opened).append (spaced' opened)

theorem Closed.parted_spacer (closed : Closed rules fragment) :
    Parted rules (.spacer :: fragment) :=
  fun opened _ empty _ => .piece (.spacer empty) (closed ⟨opened, .spaced⟩)

theorem Closed.spaced_spacer (closed : Closed rules fragment) :
    Spaced rules (.spacer :: fragment) :=
  closed.parted_spacer.spaced

theorem Spaced.joint_spacer (spaced : Spaced rules fragment) :
    Joint rules (fragment ++ [.spacer]) :=
  fun opened => ⟨.spaced, (spaced opened).append (Step.spacer rfl).flow⟩

theorem Filling.append (filling : Filling rules first) (closed : Closed rules second) :
    Filling rules (first ++ second) := by
  intro opened fresh
  obtain ⟨run, _, flow⟩ := filling opened fresh
  exact ⟨.bare false, rfl, flow.append (closed ⟨opened, run⟩)⟩

theorem Closed.around (closed : Closed rules first) (filling : Filling rules second)
    (closed' : Closed rules third) : Closed rules (first ++ second ++ third) := by
  intro place
  obtain ⟨run, _, flow⟩ := filling place.opened false
  exact ((closed place).append flow).append (closed' ⟨place.opened, run⟩)

theorem Filling.closed_element {element : Element} {attributes : List Attribute}
    (filling : Filling rules fragment) (allowed : rules.opens element attributes) :
    Closed rules (.opening element attributes :: fragment ++ [.closing element]) := by
  rintro ⟨opened, before⟩
  obtain ⟨run, seen, flow⟩ := filling (element :: opened) (opensLine element attributes)
  exact .piece (.opening allowed) (flow.append (Step.closing seen).flow)

theorem filling_text {content : List Char} (shown : rules.shows content) :
    Filling rules [.text content] :=
  fun _ _ => ⟨.filled, rfl, (Step.text shown).flow⟩

theorem filling_spacer : Filling rules [.spacer] :=
  fun _ _ => ⟨.spaced, rfl, (Step.spacer rfl).flow⟩

theorem filling_quotes {count : Nat} (some : 0 < count) : Filling rules [.quotes count] :=
  fun _ _ => ⟨.filled, rfl, (Step.quotes some).flow⟩

theorem filling_quoted {count count' : Nat} (some : 0 < count) (content : List Char) :
    Filling rules [.quotes count, .text content, .quotes count'] :=
  fun _ _ => ⟨.shut, rfl, .piece (.quotes some) (.piece .moreText (Step.lastQuotes).flow)⟩

theorem Filling.closed_spanning {style : String} (filling : Filling rules fragment)
    (plain : (Attribute.style style).isPlain = true) :
    Closed rules (Fragment.spanning style fragment) :=
  filling.closed_element (rules.styled (by decide) plain)

theorem Filling.closed_division {style : String} (filling : Filling rules fragment)
    (plain : (Attribute.style style).isPlain = true) :
    Closed rules (Fragment.division style fragment) :=
  filling.closed_element (rules.styled (by decide) plain)

theorem closed_span {style text : String} (plain : (Attribute.style style).isPlain = true)
    (shown : rules.shows text.toList) : Closed rules (Fragment.span style text) :=
  (filling_text shown).closed_spanning plain

theorem Filling.closed_line (filling : Filling rules fragment) :
    Closed rules (Fragment.line fragment) :=
  filling.closed_division (by decide)

theorem closed_blankLine : Closed rules Fragment.blankLine :=
  filling_spacer.closed_line

theorem closed_join {separator : Fragment} {parts : List Fragment} (joint : Joint rules separator)
    (closed : ∀ part ∈ parts, Closed rules part) (some : parts ≠ []) :
    Closed rules (Fragment.join separator parts) := by
  induction parts with
  | nil => exact absurd rfl some
  | cons part rest ih =>
      cases rest with
      | nil => exact closed part List.mem_cons_self
      | cons next rest =>
          have behind := ih (fun part member => closed part (List.mem_cons_of_mem _ member))
            (List.cons_ne_nil next rest)
          intro place
          obtain ⟨run, between⟩ := joint place.opened
          have before := (closed part List.mem_cons_self) place
          exact (before.append between).append (behind ⟨place.opened, run⟩)

end

end GraphqlReference.Html
