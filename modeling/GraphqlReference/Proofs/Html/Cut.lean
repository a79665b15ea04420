import GraphqlReference.Html.Gap
import GraphqlReference.Proofs.Html.Escape

namespace GraphqlReference.Html

/-!
The text of a page cut at its tags. Closing the gaps of such a text acts on each run between two
tags by itself and leaves the tags alone.
-/

/-- A tag with its attributes. -/
inductive Tag where
  | opening (element : Element) (attributes : List Attribute)
  | closing (element : Element)
  deriving DecidableEq, Repr

namespace Attribute

def name : Attribute → String
  | style _ => "class"
  | identity _ => "id"
  | target _ => "href"
  | title _ => "title"

/-- What stands between the quotation marks. -/
def value : Attribute → List Char
  | style name => name.toList
  | identity name | title name => escape name.toList
  | target name => '#' :: escape name.toList

theorem write_eq (property : Attribute) :
    property.write = ' ' :: property.name.toList ++ '=' :: '"' :: property.value ++ ['"'] := by
  cases property <;> simp only [name, value] <;> rfl

/-- A style is written as it is, so it must not hold any character that markup is written with. -/
def isPlain : Attribute → Bool
  | style name => name.toList.all fun c => c != '&' && !isMarkupChar c
  | _ => true

theorem value_plain {property : Attribute} (plain : property.isPlain = true) {c : Char}
    (member : c ∈ property.value) : isMarkupChar c = false := by
  cases property with
  | style name =>
      have allowed := List.all_eq_true.mp plain c member
      simpa using (Bool.and_eq_true_iff.mp allowed).2
  | identity name | title name => exact escape_plain member
  | target name =>
      rcases List.mem_cons.mp member with rfl | inside
      · decide
      · exact escape_plain inside

theorem ampersandsEscaped_value {property : Attribute} (plain : property.isPlain = true) :
    AmpersandsEscaped property.value := by
  cases property with
  | style name =>
      refine ampersandsEscaped_of_not_mem fun member => ?_
      have allowed := List.all_eq_true.mp plain '&' member
      simp at allowed
  | identity name | title name => exact ampersandsEscaped_escape _
  | target name =>
      have mark : AmpersandsEscaped ['#'] := ampersandsEscaped_of_not_mem (by decide)
      exact mark.append (ampersandsEscaped_escape _)

end Attribute

namespace Tag

/-- What stands between the angle brackets. -/
def content : Tag → List Char
  | opening element attributes => element.tag.toList ++ attributes.flatMap Attribute.write
  | closing element => '/' :: element.tag.toList

def write (tag : Tag) : List Char :=
  '<' :: tag.content ++ ['>']

def isPlain : Tag → Bool
  | opening _ attributes => attributes.all Attribute.isPlain
  | closing _ => true

end Tag

/-- A run of text that no tag begins or ends in. -/
structure IsRun (text : List Char) : Prop where
  less : '<' ∉ text
  greater : '>' ∉ text

instance (text : List Char) : Decidable (IsRun text) :=
  decidable_of_iff ('<' ∉ text ∧ '>' ∉ text)
    ⟨fun both => ⟨both.1, both.2⟩, fun run => ⟨run.1, run.2⟩⟩

theorem isRun_nil : IsRun [] := ⟨List.not_mem_nil, List.not_mem_nil⟩

theorem IsRun.append {first second : List Char} (run : IsRun first) (run' : IsRun second) :
    IsRun (first ++ second) where
  less member := (List.mem_append.mp member).elim run.less run'.less
  greater member := (List.mem_append.mp member).elim run.greater run'.greater

theorem isRun_of_plain {text : List Char} (plain : ∀ c ∈ text, isMarkupChar c = false) :
    IsRun text where
  less member := Bool.noConfusion (plain _ member)
  greater member := Bool.noConfusion (plain _ member)

theorem isRun_escape (text : List Char) : IsRun (escape text) :=
  isRun_of_plain fun _ => escape_plain

theorem Attribute.isRun_write {property : Attribute} (plain : property.isPlain = true) :
    IsRun property.write := by
  have name : IsRun property.name.toList := by
    cases property <;> simp only [Attribute.name] <;> decide
  have value : IsRun property.value := isRun_of_plain fun _ => value_plain plain
  have parts : IsRun [' '] ∧ IsRun ['=', '"'] ∧ IsRun ['"'] := by decide
  have split : property.write =
      [' '] ++ (property.name.toList ++ (['=', '"'] ++ (property.value ++ ['"']))) := by
    simp [property.write_eq]
  rw [split]
  exact parts.1.append (name.append (parts.2.1.append (value.append parts.2.2)))

theorem Element.isRun_tag (element : Element) : IsRun element.tag.toList := by
  cases element <;> simp only [Element.tag] <;> decide

theorem Tag.isRun_content {tag : Tag} (plain : tag.isPlain = true) : IsRun tag.content := by
  cases tag with
  | opening element attributes =>
      refine element.isRun_tag.append ?_
      induction attributes with
      | nil => exact isRun_nil
      | cons first rest ih =>
          obtain ⟨firstPlain, restPlain⟩ := Bool.and_eq_true_iff.mp plain
          exact (Attribute.isRun_write firstPlain).append (ih restPlain)
  | closing element =>
      have slash : IsRun ['/'] := by decide
      exact slash.append element.isRun_tag

/-- A text in its tags: a run in front of each tag, and one behind the last tag. -/
inductive Cut where
  | last (run : List Char)
  | next (run : List Char) (tag : Tag) (behind : Cut)
  deriving DecidableEq, Repr

namespace Cut

def write : Cut → List Char
  | last run => run
  | next run tag behind => run ++ (tag.write ++ behind.write)

def tags : Cut → List Tag
  | last _ => []
  | next _ tag behind => tag :: behind.tags

def runs : Cut → List (List Char)
  | last run => [run]
  | next run _ behind => run :: behind.runs

/-- The cut is at the right places: its runs are runs, and its tags are plain. -/
def IsClean : Cut → Prop
  | last run => IsRun run
  | next run tag behind => IsRun run ∧ tag.isPlain = true ∧ behind.IsClean

end Cut

theorem Piece.write_opening (element : Element) (attributes : List Attribute) :
    (Piece.opening element attributes).write = (Tag.opening element attributes).write :=
  rfl

theorem Piece.write_closing (element : Element) :
    (Piece.closing element).write = (Tag.closing element).write :=
  rfl

namespace Fragment

/-- The cut of a fragment behind a run of text. -/
def cutFrom (run : List Char) : Fragment → Cut
  | [] => .last run
  | .opening element attributes :: rest => .next run (.opening element attributes) (cutFrom [] rest)
  | .closing element :: rest => .next run (.closing element) (cutFrom [] rest)
  | .text content :: rest => cutFrom (run ++ (Piece.text content).write) rest
  | .quotes count :: rest => cutFrom (run ++ (Piece.quotes count).write) rest
  | .spacer :: rest => cutFrom (run ++ Piece.spacer.write) rest

theorem write_cons (piece : Piece) (rest : Fragment) :
    Fragment.write (piece :: rest) = piece.write ++ Fragment.write rest :=
  List.flatMap_cons

theorem write_singleton (piece : Piece) : Fragment.write [piece] = piece.write :=
  List.append_nil _

theorem write_append (first second : Fragment) :
    Fragment.write (first ++ second) = Fragment.write first ++ Fragment.write second :=
  List.flatMap_append

theorem write_cutFrom (run : List Char) (fragment : Fragment) :
    (cutFrom run fragment).write = run ++ fragment.write := by
  induction fragment generalizing run with
  | nil => exact (List.append_nil run).symm
  | cons piece rest ih =>
      cases piece with
      | opening element attributes =>
          rw [cutFrom, Cut.write, ih, write_cons, Piece.write_opening, List.nil_append]
      | closing element =>
          rw [cutFrom, Cut.write, ih, write_cons, Piece.write_closing, List.nil_append]
      | text content => rw [cutFrom, ih, write_cons, List.append_assoc]
      | quotes count => rw [cutFrom, ih, write_cons, List.append_assoc]
      | spacer => rw [cutFrom, ih, write_cons, List.append_assoc]

end Fragment

/-- What the styles of a piece may hold. -/
def Piece.isPlain : Piece → Bool
  | opening _ attributes => attributes.all Attribute.isPlain
  | _ => true

theorem Fragment.isClean_cutFrom {run : List Char} {fragment : Fragment} (clear : IsRun run)
    (plain : ∀ piece ∈ fragment, piece.isPlain = true) : (cutFrom run fragment).IsClean := by
  induction fragment generalizing run with
  | nil => exact clear
  | cons piece rest ih =>
      have restPlain := fun piece member => plain piece (List.mem_cons_of_mem _ member)
      cases piece with
      | opening element attributes =>
          exact ⟨clear, plain _ List.mem_cons_self, ih isRun_nil restPlain⟩
      | closing element => exact ⟨clear, rfl, ih isRun_nil restPlain⟩
      | text content => exact ih (clear.append (isRun_escape content)) restPlain
      | quotes count =>
          have quote : ∀ c ∈ List.replicate count '"', c = '"' := fun _ => List.eq_of_mem_replicate
          have inside : IsRun (Piece.quotes count).write :=
            ⟨fun member => absurd (quote _ member) (by decide),
              fun member => absurd (quote _ member) (by decide)⟩
          exact ih (clear.append inside) restPlain
      | spacer =>
          have inside : IsRun Piece.spacer.write := by decide
          exact ih (clear.append inside) restPlain

end GraphqlReference.Html
