import Mathlib.Data.List.Forall2
import GraphqlReference.Proofs.Html.Cut

namespace GraphqlReference.Html

/-- A text without its tags. It may begin inside a tag. -/
def dropTags (inside : Bool) : List Char → List Char
  | [] => []
  | c :: rest =>
    if inside then dropTags (c != '>') rest
    else if c = '<' then dropTags true rest
    else c :: dropTags false rest

/-- A text without its tags and with the characters that its entities stand for. -/
def plainText (text : List Char) : List Char :=
  unescape (dropTags false text)

theorem dropTags_run {run : List Char} (outside : '<' ∉ run) (rest : List Char) :
    dropTags false (run ++ rest) = run ++ dropTags false rest := by
  induction run with
  | nil => rfl
  | cons c run ih =>
      obtain ⟨different, outside⟩ := not_or.mp (mt List.mem_cons.mpr outside)
      rw [List.cons_append, dropTags, if_neg Bool.false_ne_true, if_neg (Ne.symm different),
        ih outside, List.cons_append]

theorem dropTags_inside {content : List Char} (inside : '>' ∉ content) (rest : List Char) :
    dropTags true (content ++ '>' :: rest) = dropTags false rest := by
  induction content with
  | nil => rfl
  | cons c content ih =>
      obtain ⟨different, inside⟩ := not_or.mp (mt List.mem_cons.mpr inside)
      have stays : (c != '>') = true := bne_iff_ne.mpr (Ne.symm different)
      rw [List.cons_append, dropTags, if_pos rfl, stays, ih inside]

theorem dropTags_tag {tag : Tag} (plain : tag.isPlain = true) (rest : List Char) :
    dropTags false (tag.write ++ rest) = dropTags false rest := by
  have split : tag.write ++ rest = '<' :: (tag.content ++ '>' :: rest) := by simp [Tag.write]
  rw [split, dropTags, if_neg Bool.false_ne_true, if_pos rfl,
    dropTags_inside (Tag.isRun_content plain).greater]

namespace Fragment

/-- A fragment reads as this text, wherever it stands. -/
def Shows (fragment : Fragment) (text : List Char) : Prop :=
  ∀ rest, plainText (fragment.write ++ rest) = text ++ plainText rest

variable {fragment first second : Fragment} {text text' : List Char}

theorem Shows.plainText (shows : Shows fragment text) : plainText fragment.write = text := by
  have alone := shows []
  rwa [List.append_nil, Html.plainText, Html.plainText, dropTags, unescape,
    List.append_nil] at alone

theorem shows_nil : Shows [] [] :=
  fun _ => rfl

theorem Shows.append (shows : Shows first text) (shows' : Shows second text') :
    Shows (first ++ second) (text ++ text') := by
  intro rest
  rw [write_append, List.append_assoc, shows, shows', List.append_assoc]

theorem shows_text (content : List Char) : Shows [.text content] content := by
  intro rest
  have written : (Piece.text content).write = escape content := rfl
  rw [write_singleton, written, Html.plainText, dropTags_run (isRun_escape content).less,
    unescape_escape_append, Html.plainText]

/-- A non-breaking space is written as an entity, and is left as it is written. -/
theorem shows_spacer : Shows [.spacer] "&nbsp;".toList :=
  fun _ => rfl

theorem shows_opening {element : Element} {attributes : List Attribute}
    (plain : attributes.all Attribute.isPlain = true) : Shows [.opening element attributes] [] := by
  intro rest
  have tag : (Tag.opening element attributes).isPlain = true := plain
  rw [write_singleton, Piece.write_opening, Html.plainText, dropTags_tag tag, Html.plainText,
    List.nil_append]

theorem shows_closing (element : Element) : Shows [.closing element] [] := by
  intro rest
  rw [write_singleton, Piece.write_closing, Html.plainText, dropTags_tag rfl, Html.plainText,
    List.nil_append]

/-- An element reads as what it holds. -/
theorem Shows.element (shows : Shows fragment text) {element : Element}
    {attributes : List Attribute} (plain : attributes.all Attribute.isPlain = true) :
    Shows (.opening element attributes :: fragment ++ [.closing element]) text := by
  have opening : Shows [.opening element attributes] [] := shows_opening plain
  have whole := (opening.append shows).append (shows_closing element)
  rwa [List.nil_append, List.append_nil] at whole

theorem Shows.spanning (shows : Shows fragment text) {style : String}
    (plain : (Attribute.style style).isPlain = true) : Shows (spanning style fragment) text :=
  shows.element (by simpa using plain)

theorem shows_span (content : String) {style : String}
    (plain : (Attribute.style style).isPlain = true) :
    Shows (span style content) content.toList :=
  (shows_text content.toList).spanning plain

theorem Shows.join {separator : Fragment} {parts : List Fragment} {texts : List (List Char)}
    (between : Shows separator text) (shows : List.Forall₂ Shows parts texts) :
    Shows (join separator parts) (text.intercalate texts) := by
  induction shows with
  | nil => exact shows_nil
  | @cons part shown parts texts here later ih =>
      cases later with
      | nil => exact List.intercalate_singleton.symm ▸ here
      | cons next later =>
          rw [List.intercalate_cons_cons]
          exact (here.append between).append ih

end Fragment

end GraphqlReference.Html
