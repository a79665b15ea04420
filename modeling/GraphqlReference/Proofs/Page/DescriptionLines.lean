import GraphqlReference.Proofs.Html.Lines
import GraphqlReference.Proofs.Page.Redescribing
import GraphqlReference.Proofs.Page.Settling
import GraphqlReference.Proofs.Text.Trimming

namespace GraphqlReference.Page

open Html

/-- What the line of a piece holds in the text of a page. -/
def lineText (piece : List Char) : List Char :=
  if piece = [] then Piece.spacer.write else escape piece

/-- The piece that a line stands for. -/
def decodeLine (content : List Char) : List Char :=
  if content = Piece.spacer.write then [] else unescape content

/-- What the lines of a block hold between its delimiters. -/
def contentLines (html : List Char) : List (List Char) :=
  (lineContents html).tail.dropLast

def delimiterText : List Char :=
  "\"\"\"".toList

theorem escape_ne_spacer (text : List Char) : escape text ≠ Piece.spacer.write := by
  intro same
  have read : unescape Piece.spacer.write = text := by rw [← same, unescape_escape]
  rw [← read] at same
  exact absurd same (by decide)

theorem decodeLine_lineText (piece : List Char) : decodeLine (lineText piece) = piece := by
  by_cases empty : piece = []
  · rw [empty]
    rfl
  · rw [lineText, if_neg empty, decodeLine, if_neg (escape_ne_spacer piece), unescape_escape]

theorem lineText_ne_nil (piece : List Char) : lineText piece ≠ [] := by
  intro none
  have read := decodeLine_lineText piece
  rw [none] at read
  have empty : piece = [] := read.symm
  rw [empty] at none
  exact absurd none (by decide)

section

variable {text html : List Char}

/-- What a line holds for a piece without the blanks at its end. -/
def trimmedContent (piece : List Char) : Fragment :=
  if piece.isEmpty then [.spacer] else [.text piece]

theorem write_trimmedContent (piece : List Char) :
    (trimmedContent piece).write = lineText piece := by
  cases piece with
  | nil => rfl
  | cons c rest => exact Fragment.write_singleton (.text (c :: rest))

theorem blockContents_eq (text : List Char) : blockContents text =
    [.quotes 3] :: (Text.trimmedPieces text).map trimmedContent ++ [[.quotes 3]] := by
  rw [Text.trimmedPieces_eq_map, List.map_map]
  rfl

theorem write_blockContents (text : List Char) :
    (blockContents text).map Fragment.write =
      delimiterText :: (Text.trimmedPieces text).map lineText ++ [delimiterText] := by
  have delimiter : Fragment.write [.quotes 3] = delimiterText := by decide
  simp [blockContents_eq, write_trimmedContent, delimiter]

theorem lineContents_textBlock
    (shown : html = (textBlock text).render ∨ html = normalize (textBlock text).render) :
    lineContents html =
      delimiterText :: (Text.trimmedPieces text).map lineText ++ [delimiterText] := by
  rw [← write_blockContents]
  rcases shown with rfl | rfl
  · rw [textBlock_eq, Section.lineContents_render_describing (isTagless_blockContents text)]
  · have whole : Section.Whole strictRules (textBlock text) := whole_textBlock text
    have settled : normalize (textBlock text).render = (textBlock text).settled :=
      whole.normalize_render fun _ => id
    have some : ∀ written ∈ (blockContents text).map Fragment.write, written ≠ [] := by
      rw [write_blockContents]
      exact List.forall_mem_append.mpr ⟨List.forall_mem_cons.mpr ⟨by decide,
        List.forall_mem_map.mpr fun piece _ => lineText_ne_nil piece⟩,
        List.forall_mem_singleton.mpr (by decide)⟩
    rw [settled, textBlock_eq]
    exact Section.lineContents_settled_describing (isTagless_blockContents text)
      fun content member => some content.write (List.mem_map_of_mem member)

theorem contentLines_textBlock
    (shown : html = (textBlock text).render ∨ html = normalize (textBlock text).render) :
    contentLines html = (Text.trimmedPieces text).map lineText := by
  rw [contentLines, lineContents_textBlock shown]
  exact List.dropLast_concat

theorem decode_contentLines
    (shown : html = (textBlock text).render ∨ html = normalize (textBlock text).render) :
    (contentLines html).map decodeLine = Text.trimmedPieces text := by
  rw [contentLines_textBlock shown, List.map_map]
  exact List.map_id'' decodeLine_lineText _

theorem textBlock_congr {text' : List Char}
    (same : Text.trimmedPieces text = Text.trimmedPieces text') :
    textBlock text = textBlock text' := by
  rw [textBlock_eq, textBlock_eq, blockContents_eq, blockContents_eq, same]

/-- Blocks look the same, in any view that a finished document can be made from, exactly if their
texts agree but for the blanks that end a piece. -/
theorem view_textBlock_iff {α : Type} (view : Section → α) {text' : List Char}
    (finished : view (textBlock text) = view (textBlock text') →
      normalize (textBlock text).render = normalize (textBlock text').render) :
    view (textBlock text) = view (textBlock text') ↔
      Text.trimmedPieces text = Text.trimmedPieces text' := by
  refine ⟨fun same => ?_, fun same => by rw [textBlock_congr same]⟩
  rw [← decode_contentLines (.inr rfl), finished same, decode_contentLines (.inr rfl)]

end

theorem descriptionBlock_some {text : String} (nonempty : text ≠ "") :
    descriptionBlock (some text) = textBlock text.toList := by
  have shown : text.isEmpty = false := by simpa using nonempty
  rw [descriptionBlock, shown]
  rfl

/-- The lines of a block are the pieces of its text in their order, without the blanks that end a
piece. Blocks are the same exactly if their texts agree piece by piece but for these blanks, whether
they are compared as markup, as text or in a finished document. -/
theorem descriptionBlock_lossless {text : String} (nonempty : text ≠ "") :
    (∀ html ∈ [(descriptionBlock (some text)).render,
        normalize (descriptionBlock (some text)).render],
      lineContents html = delimiterText :: contentLines html ++ [delimiterText] ∧
        (contentLines html).map decodeLine = Text.trimmedPieces text.toList) ∧
    ∀ other : String, other ≠ "" →
      (Markup.write Piece.write (descriptionBlock (some text)) =
          Markup.write Piece.write (descriptionBlock (some other)) ↔
        Text.trimmedPieces text.toList = Text.trimmedPieces other.toList) ∧
      ((descriptionBlock (some text)).render = (descriptionBlock (some other)).render ↔
        Text.trimmedPieces text.toList = Text.trimmedPieces other.toList) ∧
      (normalize (descriptionBlock (some text)).render =
          normalize (descriptionBlock (some other)).render ↔
        Text.trimmedPieces text.toList = Text.trimmedPieces other.toList) := by
  rw [descriptionBlock_some nonempty]
  refine ⟨fun html member => ?_, fun other nonempty' => ?_⟩
  · have shown : html = (textBlock text.toList).render ∨
        html = normalize (textBlock text.toList).render := by simpa using member
    refine ⟨?_, decode_contentLines shown⟩
    rw [contentLines_textBlock shown, lineContents_textBlock shown]
  · rw [descriptionBlock_some nonempty']
    refine ⟨view_textBlock_iff (Markup.write Piece.write) fun same => ?_,
      view_textBlock_iff Section.render fun same => ?_,
      view_textBlock_iff (fun markup => normalize markup.render) fun same => same⟩
    · exact congrArg (fun markup => normalize (Markup.render markup)) same
    · rw [same]

/-- A piece that reads like the filling of an empty line is told from an empty piece. -/
theorem descriptionBlock_lossless_spacer :
    (contentLines (descriptionBlock (some "a \n&nbsp;\n")).render).map decodeLine =
        ["a".toList, "&nbsp;".toList, []] ∧
      (descriptionBlock (some "a \n&nbsp;\n")).render =
        (descriptionBlock (some "a\n&nbsp;\r\n\t")).render := by
  have nonempty : "a \n&nbsp;\n" ≠ "" := by decide
  obtain ⟨lines, same⟩ := descriptionBlock_lossless nonempty
  obtain ⟨_, decoded⟩ := lines _ List.mem_cons_self
  obtain ⟨_, rendered, _⟩ := same "a\n&nbsp;\r\n\t" (by decide)
  exact ⟨decoded.trans (by decide), rendered.mpr (by decide)⟩

/-- The description of a member is a block exactly if the block has several lines. -/
def SwitchesAtLines (text : String) : Prop :=
  (memberDescription (some text)).render = (descriptionBlock (some text)).render ↔
    1 < (contentLines (descriptionBlock (some text)).render).length

/-- No line of a description, in either form, holds the end of a line. -/
def ShowsNoLineEnd (text : String) : Prop :=
  ∀ shown ∈ [memberDescription (some text), descriptionBlock (some text)],
    ∀ content ∈ lineContents shown.render, '\n' ∉ content ∧ '\r' ∉ content

theorem mem_escape_iff {c : Char} (lineEnd : c = '\n' ∨ c = '\r') (text : List Char) :
    c ∈ escape text ↔ c ∈ text := by
  have alone : escapeChar c = [c] := by
    rcases lineEnd with rfl | rfl <;> decide
  rw [escape_eq_flatMap, List.mem_flatMap]
  refine ⟨?_, fun member => ⟨c, member, alone ▸ List.mem_singleton_self c⟩⟩
  rintro ⟨original, member, shown⟩
  rcases escapeChar_cases original with
    ⟨_, _, same⟩ | ⟨_, same⟩ | ⟨_, same⟩ | ⟨_, same⟩ | ⟨_, same⟩
  · rw [same, List.mem_singleton] at shown
    exact shown ▸ member
  all_goals
    rw [same] at shown
    rcases lineEnd with rfl | rfl <;> exact absurd shown (by decide)

theorem mem_lineText_iff {c : Char} (lineEnd : c = '\n' ∨ c = '\r') (piece : List Char) :
    c ∈ lineText piece ↔ c ∈ piece := by
  by_cases empty : piece = []
  · rw [empty]
    rcases lineEnd with rfl | rfl <;> decide
  · rw [lineText, if_neg empty, mem_escape_iff lineEnd]

section

variable {text : String}

theorem memberDescription_broken (broken : hasLineBreak text.toList = true) :
    memberDescription (some text) = descriptionBlock (some text) := by
  simp only [memberDescription, descriptionBlock, broken, if_true]

/-- What a member shows for a description on a single line. -/
def quotedContent (text : List Char) : Fragment :=
  [.quotes 1, .text text, .quotes 1]

theorem write_quotedContent (text : List Char) :
    (quotedContent text).write = '"' :: escape text ++ ['"'] := by
  have quote : (Piece.quotes 1).write = ['"'] := rfl
  have content : (Piece.text text).write = escape text := rfl
  rw [quotedContent, Fragment.write_cons, Fragment.write_cons, Fragment.write_cons, quote, content]
  rfl

theorem lineContents_memberDescription (nonempty : text ≠ "")
    (plain : hasLineBreak text.toList = false) :
    lineContents (memberDescription (some text)).render =
      ['"' :: escape text.toList ++ ['"']] := by
  have described : text.isEmpty = false := by simpa using nonempty
  have shown : memberDescription (some text) =
      [.inline (Fragment.division "description" (.line (quotedContent text.toList)))] := by
    simp only [memberDescription, described, plain, Bool.false_eq_true, if_false, quotedContent]
    rfl
  have listed : Section.Lists
      [.inline (Fragment.division "description" (.line (quotedContent text.toList)))]
      [[(quotedContent text.toList).write]] := .cons (Fragment.lists_description rfl) .nil
  rw [shown, listed.lineContents_render, write_quotedContent]
  rfl

theorem lineContents_descriptionBlock (nonempty : text ≠ "") :
    lineContents (descriptionBlock (some text)).render =
      delimiterText :: (Text.trimmedPieces text.toList).map lineText ++ [delimiterText] := by
  rw [descriptionBlock_some nonempty, lineContents_textBlock (.inl rfl)]

theorem memberDescription_render_iff (nonempty : text ≠ "") :
    (memberDescription (some text)).render = (descriptionBlock (some text)).render ↔
      hasLineBreak text.toList = true := by
  refine ⟨fun same => ?_, fun broken => by rw [memberDescription_broken broken]⟩
  by_contra plain
  have lines := lineContents_memberDescription nonempty (Bool.eq_false_iff.mpr plain)
  rw [same, lineContents_descriptionBlock nonempty] at lines
  simpa using congrArg List.length lines

theorem switchesAtLines_iff (nonempty : text ≠ "") :
    SwitchesAtLines text ↔ ('\r' ∈ text.toList → '\n' ∈ text.toList) := by
  have several : 1 < (contentLines (descriptionBlock (some text)).render).length ↔
      '\n' ∈ text.toList := by
    rw [descriptionBlock_some nonempty, contentLines_textBlock (.inl rfl), List.length_map,
      Text.length_trimmedPieces, Nat.lt_add_left_iff_pos, List.count_pos_iff]
  rw [SwitchesAtLines, memberDescription_render_iff nonempty, several, hasLineBreak_iff,
    or_iff_left_iff_imp]

theorem showsNoLineEnd_iff (nonempty : text ≠ "") :
    ShowsNoLineEnd text ↔ ∀ piece ∈ Text.trimmedPieces text.toList, '\r' ∉ piece := by
  have block : (∀ content ∈ lineContents (descriptionBlock (some text)).render,
      '\n' ∉ content ∧ '\r' ∉ content) ↔
        ∀ piece ∈ Text.trimmedPieces text.toList, '\r' ∉ piece := by
    have delimiter : '\n' ∉ delimiterText ∧ '\r' ∉ delimiterText := by decide
    rw [lineContents_descriptionBlock nonempty, List.cons_append, List.forall_mem_cons,
      List.forall_mem_append, List.forall_mem_singleton, List.forall_mem_map]
    simp only [delimiter, not_false_eq_true, and_self, true_and, and_true,
      mem_lineText_iff (.inl rfl), mem_lineText_iff (.inr rfl)]
    exact forall₂_congr fun piece member =>
      and_iff_right (Text.lineFeed_not_mem_trimmedPieces text.toList piece member)
  rw [ShowsNoLineEnd, List.forall_mem_cons, List.forall_mem_singleton, block]
  cases broken : hasLineBreak text.toList with
  | true => rw [memberDescription_broken broken, block, and_self]
  | false =>
      have absent : ¬ ('\n' ∈ text.toList ∨ '\r' ∈ text.toList) := by
        rw [← hasLineBreak_iff, broken]
        exact Bool.false_ne_true
      obtain ⟨feed, carriage⟩ := not_or.mp absent
      refine and_iff_right ?_
      rw [lineContents_memberDescription nonempty broken, List.forall_mem_singleton]
      simp [mem_escape_iff (.inl rfl), mem_escape_iff (.inr rfl), feed, carriage]

end

/-- Members and blocks agree about the ends of lines exactly if a text with a carriage return has a
line feed, too, and a line shows the end of a line exactly if a carriage return stands in a piece in
front of anything but blanks. Neither goes wrong where a line feed follows each carriage return. -/
theorem lineEnds_agree_iff {text : String} (nonempty : text ≠ "") :
    (SwitchesAtLines text ↔ ('\r' ∈ text.toList → '\n' ∈ text.toList)) ∧
      (ShowsNoLineEnd text ↔ ∀ piece ∈ Text.trimmedPieces text.toList, '\r' ∉ piece) ∧
      (Text.HasPairedReturns text.toList → SwitchesAtLines text ∧ ShowsNoLineEnd text) := by
  have switches := switchesAtLines_iff nonempty
  have shows := showsNoLineEnd_iff nonempty
  refine ⟨switches, shows, fun paired => ⟨switches.mpr fun member => ?_, ?_⟩⟩
  · obtain ⟨before, after, same⟩ := List.append_of_mem member
    have next := (paired before after same).subset List.mem_cons_self
    rw [same]
    exact List.mem_append_right before (List.mem_cons_of_mem _ next)
  · exact shows.mpr paired.not_mem_trimmedPieces

theorem lineEnds_agree_iff_crlf :
    Text.HasPairedReturns "a\r\nb".toList ∧ SwitchesAtLines "a\r\nb" ∧ ShowsNoLineEnd "a\r\nb" := by
  have paired : Text.HasPairedReturns "a\r\nb".toList := by
    intro before after same
    have first : '\r' ∉ ['a'] := by decide
    have split : "a\r\nb".toList = ['a'] ++ '\r' :: ['\n', 'b'] := by decide
    rw [split] at same
    rcases Text.append_cons_eq_append_cons first same with ⟨_, rfl⟩ | ⟨rest, _, behind⟩
    · exact List.prefix_append ['\n'] ['b']
    · have second : '\r' ∈ ['\n', 'b'] := by
        rw [behind]
        exact List.mem_append_right rest List.mem_cons_self
      exact absurd second (by decide)
  exact ⟨paired, (lineEnds_agree_iff (by decide)).2.2 paired⟩

/-- Around a carriage return that stands alone, the description of a member is a block of a single
line, and this line holds the carriage return. -/
theorem not_lineEnds_agree :
    "a\rb" ≠ "" ∧ ¬ SwitchesAtLines "a\rb" ∧ ¬ ShowsNoLineEnd "a\rb" := by
  have nonempty : "a\rb" ≠ "" := by decide
  refine ⟨nonempty, ?_, ?_⟩
  · rw [switchesAtLines_iff nonempty]
    decide
  · rw [showsNoLineEnd_iff nonempty]
    decide

end GraphqlReference.Page
