import GraphqlReference.Proofs.Html.Erasing
import GraphqlReference.Proofs.Html.Finished
import GraphqlReference.Proofs.Html.Settling

namespace GraphqlReference.Html

/-!
A veil hides of a text what erasing takes from it. It can be drawn before the gaps are closed, so
texts that are alike behind a veil are still alike when they are finished.
-/

/-- A run inside these divisions, unless they conceal it. -/
def veilRun (opened : List (List Char)) (run : List Char) : List Char :=
  if conceals opened then [] else run

theorem veilRun_veilRun (opened : List (List Char)) (run : List Char) :
    veilRun opened (veilRun opened run) = veilRun opened run := by
  unfold veilRun
  split <;> rfl

theorem eraseFrom_run {run : List Char} (outside : '<' ∉ run) (opened : List (List Char))
    (rest : List Char) :
    eraseFrom opened none (run ++ rest) = veilRun opened run ++ eraseFrom opened none rest := by
  unfold veilRun
  induction run with
  | nil => split <;> rfl
  | cons c run ih =>
      obtain ⟨different, outside⟩ := not_or.mp (mt List.mem_cons.mpr outside)
      rw [List.cons_append, eraseFrom, if_neg (Ne.symm different), ih outside]
      split <;> rfl

theorem eraseFrom_content {text : List Char} (inside : '>' ∉ text) (opened : List (List Char))
    (begun rest : List Char) :
    eraseFrom opened (some begun) (text ++ rest) =
      eraseFrom opened (some (begun ++ text)) rest := by
  induction text generalizing begun with
  | nil => rw [List.nil_append, List.append_nil]
  | cons c text ih =>
      obtain ⟨different, inside⟩ := not_or.mp (mt List.mem_cons.mpr inside)
      rw [List.cons_append, eraseFrom, if_neg (Ne.symm different), ih inside, List.append_assoc,
        List.singleton_append]

/-- The divisions that are open behind a tag. -/
def Tag.openBehind (opened : List (List Char)) (tag : Tag) : List (List Char) :=
  Html.openBehind opened tag.untitled.content

theorem Tag.openBehind_untitled (opened : List (List Char)) (tag : Tag) :
    tag.untitled.openBehind opened = tag.openBehind opened := by
  rw [openBehind, openBehind, untitled_untitled]

theorem eraseFrom_tag {tag : Tag} (plain : tag.isPlain = true) (opened : List (List Char))
    (rest : List Char) :
    eraseFrom opened none (tag.write ++ rest) =
      (if conceals opened && conceals (tag.openBehind opened) then [] else tag.untitled.write) ++
        eraseFrom (tag.openBehind opened) none rest := by
  have split : tag.write ++ rest = '<' :: (tag.content ++ '>' :: rest) := by simp [Tag.write]
  rw [split, eraseFrom, if_pos rfl, eraseFrom_content (Tag.isRun_content plain).greater,
    List.nil_append, eraseFrom, if_pos rfl, untitle_content plain]
  rfl

namespace Cut

/-- The cut without concealed runs and without the values of titles. -/
def veil (opened : List (List Char)) : Cut → Cut
  | last run => last (veilRun opened run)
  | next run tag behind =>
    next (veilRun opened run) tag.untitled (behind.veil (tag.openBehind opened))

/-- Erasing leaves of a text what it leaves of the text behind its veil. -/
theorem eraseFrom_veil {cut : Cut} (clean : cut.IsClean) (opened : List (List Char))
    (rest : List Char) :
    eraseFrom opened none (cut.write ++ rest) =
      eraseFrom opened none ((cut.veil opened).write ++ rest) := by
  have veiled : ∀ {run : List Char}, IsRun run → ∀ opened, '<' ∉ veilRun opened run := by
    intro run clean opened
    unfold veilRun
    split
    · exact List.not_mem_nil
    · exact clean.less
  induction cut generalizing opened with
  | last run =>
      rw [veil, write, write, eraseFrom_run clean.less, eraseFrom_run (veiled clean opened),
        veilRun_veilRun]
  | next run tag behind ih =>
      obtain ⟨runClean, plain, behindClean⟩ := clean
      simp only [veil, write, List.append_assoc]
      rw [eraseFrom_run runClean.less, eraseFrom_run (veiled runClean opened), veilRun_veilRun,
        eraseFrom_tag plain, eraseFrom_tag (Tag.isPlain_untitled plain), Tag.untitled_untitled,
        Tag.openBehind_untitled, ih behindClean]

end Cut

theorem Tag.write_inj {tag tag' : Tag} : tag.write = tag'.write ↔ tag.content = tag'.content := by
  rw [write, write, List.append_left_inj]
  exact ⟨fun same => (List.cons.inj same).2, congrArg _⟩

theorem Attribute.untitled_eq_self {property : Attribute} (none : 't' ∉ property.untitled.write) :
    property.untitled = property := by
  cases property with
  | title text =>
      have inside : 't' ∈ (title "").write := by decide
      exact absurd inside none
  | style | identity | target => rfl

/-- Without the letter that its name begins with, there is no title. -/
theorem Tag.untitled_eq_self {tag : Tag} (none : 't' ∉ tag.untitled.content) :
    tag.untitled = tag := by
  cases tag with
  | closing element => rfl
  | opening element attributes =>
      have kept : ∀ property ∈ attributes, property.untitled = property := by
        intro property member
        refine Attribute.untitled_eq_self fun inside => none (List.mem_append_right _ ?_)
        exact List.mem_flatMap.mpr ⟨_, List.mem_map_of_mem member, inside⟩
      exact congrArg (opening element) ((List.map_congr_left kept).trans (List.map_id _))

theorem Tag.write_untitled_eq_lineOpening {tag : Tag} (plain : tag.isPlain = true) :
    tag.untitled.write = lineOpening ↔ tag.write = lineOpening := by
  constructor
  · intro opens
    have content : tag.untitled.content = lineTag := Tag.write_inj.mp opens
    have none : 't' ∉ tag.untitled.content := content ▸ by decide
    rwa [Tag.untitled_eq_self none] at opens
  · intro opens
    have content : tag.content = lineTag := Tag.write_inj.mp opens
    rw [write, ← untitle_content plain, content]
    decide

theorem Tag.write_untitled_eq_lineClosing (tag : Tag) :
    tag.untitled.write = lineClosing ↔ tag.write = lineClosing := by
  cases tag with
  | closing element => rfl
  | opening element attributes =>
      exact iff_of_false (opening_ne_lineClosing _ _) (opening_ne_lineClosing _ _)

/-- A veil may be drawn before the runs of a text settle, and once more behind that. -/
theorem Cut.veil_settle {cut : Cut} (clean : cut.IsClean) (opened : List (List Char))
    (behindTag : Bool) {previous previous' : List Char}
    (same : previous = lineOpening ↔ previous' = lineOpening) :
    (cut.settle behindTag previous).veil opened =
      ((cut.veil opened).settle behindTag previous').veil opened := by
  unfold settle
  induction cut generalizing opened behindTag previous previous' with
  | last run => rw [veil, mapGaps, fillEmpty, mapGaps, fillEmpty, veil, veil, veilRun_veilRun]
  | next run tag behind ih =>
      obtain ⟨runClean, plain, behindClean⟩ := clean
      have later := ih behindClean (tag.openBehind opened) true
        (Tag.write_untitled_eq_lineOpening plain).symm
      simp only [veil, mapGaps, fillEmpty, Tag.openBehind_untitled, Tag.untitled_untitled, later,
        Tag.write_untitled_eq_lineClosing, same]
      congr 1
      by_cases concealed : conceals opened = true
      · simp only [veilRun, concealed, if_true]
      · simp only [veilRun, concealed, Bool.false_eq_true, if_false]

/-- The divisions that are open behind a piece. -/
def Piece.openBehind (opened : List (List Char)) : Piece → List (List Char)
  | opening element attributes => (Tag.opening element attributes).openBehind opened
  | closing element => (Tag.closing element).openBehind opened
  | text _ | quotes _ | spacer => opened

/-- The piece, unless it is concealed. -/
def Piece.veil (opened : List (List Char)) (piece : Piece) : Fragment :=
  match piece with
  | opening element attributes => [opening element (attributes.map Attribute.untitled)]
  | closing element => [closing element]
  | text _ | quotes _ | spacer => if conceals opened then [] else [piece]

namespace Fragment

def openBehind (opened : List (List Char)) (fragment : Fragment) : List (List Char) :=
  fragment.foldl Piece.openBehind opened

def veil (opened : List (List Char)) : Fragment → Fragment
  | [] => []
  | piece :: rest => piece.veil opened ++ veil (piece.openBehind opened) rest

theorem openBehind_cons (opened : List (List Char)) (piece : Piece) (rest : Fragment) :
    Fragment.openBehind opened (piece :: rest) =
      Fragment.openBehind (piece.openBehind opened) rest :=
  rfl

theorem openBehind_append (opened : List (List Char)) (first second : Fragment) :
    Fragment.openBehind opened (first ++ second) =
      second.openBehind (first.openBehind opened) :=
  List.foldl_append

theorem veil_append (opened : List (List Char)) (first second : Fragment) :
    veil opened (first ++ second) =
      veil opened first ++ veil (first.openBehind opened) second := by
  induction first generalizing opened with
  | nil => rfl
  | cons piece first ih =>
      rw [List.cons_append, veil, veil, ih, openBehind_cons, List.append_assoc]

theorem openBehind_veil (opened : List (List Char)) (fragment : Fragment) :
    (fragment.veil opened).openBehind opened = fragment.openBehind opened := by
  induction fragment generalizing opened with
  | nil => rfl
  | cons piece rest ih =>
      have here : (piece.veil opened).openBehind opened = piece.openBehind opened := by
        cases piece with
        | opening element attributes =>
            exact (Tag.opening element attributes).openBehind_untitled opened
        | closing element => rfl
        | text | quotes | spacer =>
            simp only [Piece.veil]
            split <;> rfl
      rw [veil, openBehind_append, here, ih, openBehind_cons]

theorem veil_cutFrom (opened : List (List Char)) (run : List Char) (fragment : Fragment) :
    (cutFrom run fragment).veil opened =
      cutFrom (veilRun opened run) (fragment.veil opened) := by
  induction fragment generalizing opened run with
  | nil => rfl
  | cons piece rest ih =>
      have started : ∀ opened, veilRun opened [] = [] := fun _ => ite_self []
      cases piece with
      | opening | closing =>
          rw [cutFrom, Cut.veil, ih, started]
          rfl
      | text | quotes | spacer =>
          rw [cutFrom, ih, veil]
          simp only [Piece.veil, Piece.openBehind]
          by_cases concealed : conceals opened = true
          · simp only [veilRun, concealed, if_true, List.nil_append]
          · simp only [veilRun, concealed, Bool.false_eq_true, if_false, List.singleton_append,
              cutFrom]

/-- What no division conceals is not empty behind a veil. -/
theorem write_veil_eq_nil (fragment : Fragment) :
    (fragment.veil []).write = [] ↔ fragment.write = [] := by
  induction fragment with
  | nil => rfl
  | cons piece rest ih =>
      cases piece with
      | opening | closing => exact iff_of_false (List.cons_ne_nil _ _) (List.cons_ne_nil _ _)
      | text | quotes | spacer =>
          rw [veil, write_append, write_cons, List.append_eq_nil_iff, List.append_eq_nil_iff]
          exact and_congr (by simp [Piece.veil, conceals, write]) ih

/-- Fragments that are the same behind any veil. -/
def Alike (fragment fragment' : Fragment) : Prop :=
  ∀ opened, fragment.veil opened = fragment'.veil opened

end Fragment

/-- Nothing but what erasing takes tells finished documents apart that have been alike. -/
theorem Fragment.Alike.eraseFrom_normalize {fragment fragment' : Fragment}
    (alike : Alike fragment fragment') (plain : ∀ piece ∈ fragment, piece.isPlain = true)
    (plain' : ∀ piece ∈ fragment', piece.isPlain = true) (opened : List (List Char))
    (rest : List Char) :
    eraseFrom opened none (normalize fragment.write ++ rest) =
      eraseFrom opened none (normalize fragment'.write ++ rest) := by
  have settled : ∀ {fragment : Fragment}, (∀ piece ∈ fragment, piece.isPlain = true) →
      eraseFrom opened none (normalize fragment.write ++ rest) =
        eraseFrom opened none ((((cutFrom (veilRun opened []) (fragment.veil opened)).settle
          false []).veil opened).write ++ rest) := by
    intro fragment plain
    have clean := isClean_cutFrom isRun_nil plain
    rw [normalize_write plain, Cut.eraseFrom_veil (Cut.isClean_settle clean false []),
      Cut.veil_settle clean opened false Iff.rfl, veil_cutFrom]
  rw [settled plain, settled plain', alike opened]

end GraphqlReference.Html
