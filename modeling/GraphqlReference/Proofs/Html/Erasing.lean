import GraphqlReference.Proofs.Html.EmptyLine

namespace GraphqlReference.Html

/-!
What is left of a text without what descriptions show: the values of its titles, and what stands in
the lines inside divisions for descriptions. The text is read from its beginning to its end, with
no regard to where it comes from.
-/

/-- The content of a tag without the values of titles, given what has stood behind the last value,
and whether a further value has been opened since. -/
def untitleFrom : List Char → Bool → List Char → List Char
  | _, _, [] => []
  | since, false, c :: rest =>
    c :: if c = '"' then untitleFrom since true rest else untitleFrom (since ++ [c]) false rest
  | since, true, c :: rest =>
    if c = '"' then c :: untitleFrom [] false rest
    else if " title=".toList.isSuffixOf since then untitleFrom since true rest
    else c :: untitleFrom since true rest

def untitle (content : List Char) : List Char :=
  untitleFrom [] false content

def lineTag : List Char :=
  "div class=\"line\"".toList

def descriptionTag : List Char :=
  "div class=\"description\"".toList

/-- Whether one of the divisions that are open, the innermost one first, is a line inside a division
for a description. -/
def conceals : List (List Char) → Bool
  | [] => false
  | inner :: outer => (inner == lineTag && outer.contains descriptionTag) || conceals outer

/-- The divisions that are open behind a tag of this content. -/
def openBehind (opened : List (List Char)) (content : List Char) : List (List Char) :=
  if content = "/div".toList then opened.tail
  else if content.takeWhile (· ≠ ' ') = "div".toList then content :: opened
  else opened

/-- What is left of a text inside these divisions and behind the beginning of a tag, if there is
one. -/
def eraseFrom : List (List Char) → Option (List Char) → List Char → List Char
  | _, none, [] => []
  | _, some content, [] => '<' :: content
  | opened, none, c :: rest =>
    if c = '<' then eraseFrom opened (some []) rest
    else (if conceals opened then [] else [c]) ++ eraseFrom opened none rest
  | opened, some content, c :: rest =>
    if c = '>' then
      let shown := untitle content
      let behind := openBehind opened shown
      (if conceals opened && conceals behind then [] else '<' :: shown ++ ['>']) ++
        eraseFrom behind none rest
    else eraseFrom opened (some (content ++ [c])) rest

def erase (text : List Char) : List Char :=
  eraseFrom [] none text

example : erase "<a title=\"one\">two</a>".toList = "<a title=\"\">two</a>".toList := by
  decide +kernel

example : erase "<div class=\"description\"><div class=\"line\">one</div></div>".toList =
    "<div class=\"description\"><div class=\"line\"></div></div>".toList := by
  decide +kernel

/-- Where a text stands behind the end of a tag does not depend on what follows. -/
theorem exists_eraseFrom_tagEnd (opened : List (List Char)) (begun : Option (List Char))
    (before : List Char) : ∃ shown behind, ∀ rest,
      eraseFrom opened begun (before ++ '>' :: rest) = shown ++ eraseFrom behind none rest := by
  induction before generalizing opened begun with
  | nil =>
      cases begun with
      | none => exact ⟨_, opened, fun _ => rfl⟩
      | some content => exact ⟨_, _, fun _ => rfl⟩
  | cons c before ih =>
      cases begun with
      | none =>
          by_cases opens : c = '<'
          · obtain ⟨shown, behind, same⟩ := ih opened (some [])
            refine ⟨shown, behind, fun rest => ?_⟩
            rw [List.cons_append, eraseFrom, if_pos opens, same]
          · obtain ⟨shown, behind, same⟩ := ih opened none
            refine ⟨(if conceals opened then [] else [c]) ++ shown, behind, fun rest => ?_⟩
            rw [List.cons_append, eraseFrom, if_neg opens, same, List.append_assoc]
      | some content =>
          by_cases closes : c = '>'
          · let next := openBehind opened (untitle content)
            let tag := if conceals opened && conceals next then [] else
              '<' :: untitle content ++ ['>']
            obtain ⟨shown, behind, same⟩ := ih next none
            refine ⟨tag ++ shown, behind, fun rest => ?_⟩
            rw [List.cons_append, eraseFrom, if_pos closes, List.append_assoc]
            exact congrArg (tag ++ ·) (same rest)
          · obtain ⟨shown, behind, same⟩ := ih opened (some (content ++ [c]))
            refine ⟨shown, behind, fun rest => ?_⟩
            rw [List.cons_append, eraseFrom, if_neg closes, same]

def Attribute.untitled : Attribute → Attribute
  | title _ => title ""
  | property => property

def Tag.untitled : Tag → Tag
  | opening element attributes => opening element (attributes.map Attribute.untitled)
  | closing element => closing element

theorem Attribute.untitled_untitled (property : Attribute) :
    property.untitled.untitled = property.untitled := by
  cases property <;> rfl

theorem Tag.untitled_untitled (tag : Tag) : tag.untitled.untitled = tag.untitled := by
  cases tag with
  | opening element attributes =>
      simp [untitled, Function.comp_def, Attribute.untitled_untitled]
  | closing element => rfl

theorem Tag.isPlain_untitled {tag : Tag} (plain : tag.isPlain = true) :
    tag.untitled.isPlain = true := by
  cases tag with
  | closing element => rfl
  | opening element attributes =>
      have kept : ∀ property : Attribute, property.isPlain = true →
          property.untitled.isPlain = true := by
        intro property
        cases property <;> exact id
      rw [isPlain, List.all_eq_true] at plain
      rw [untitled, isPlain, List.all_map, List.all_eq_true]
      exact fun property member => kept property (plain property member)

theorem untitleFrom_outside {text : List Char} (unquoted : '"' ∉ text) (since rest : List Char) :
    untitleFrom since false (text ++ rest) = text ++ untitleFrom (since ++ text) false rest := by
  induction text generalizing since with
  | nil => rw [List.nil_append, List.nil_append, List.append_nil]
  | cons c text ih =>
      obtain ⟨different, unquoted⟩ := not_or.mp (mt List.mem_cons.mpr unquoted)
      rw [List.cons_append, untitleFrom, if_neg (Ne.symm different), ih unquoted,
        List.append_assoc, List.singleton_append, List.cons_append]

theorem untitleFrom_inside {value : List Char} (unquoted : '"' ∉ value) (since rest : List Char) :
    untitleFrom since true (value ++ '"' :: rest) =
      (if " title=".toList.isSuffixOf since then [] else value) ++
        '"' :: untitleFrom [] false rest := by
  induction value with
  | nil => rw [List.nil_append, untitleFrom, if_pos rfl, ite_self, List.nil_append]
  | cons c value ih =>
      obtain ⟨different, unquoted⟩ := not_or.mp (mt List.mem_cons.mpr unquoted)
      rw [List.cons_append, untitleFrom, if_neg (Ne.symm different), ih unquoted]
      split <;> rfl

theorem Attribute.isSuffixOf_name (property : Attribute) (since : List Char) :
    " title=".toList.isSuffixOf (since ++ (' ' :: property.name.toList ++ ['='])) =
      (property.name == "title") := by
  rw [Bool.eq_iff_iff, List.isSuffixOf_iff_suffix, beq_iff_eq]
  have own : ' ' :: property.name.toList ++ ['='] <:+
      since ++ (' ' :: property.name.toList ++ ['=']) := List.suffix_append _ _
  constructor
  · intro titled
    have short : (' ' :: property.name.toList ++ ['=']).length ≤ " title=".toList.length := by
      cases property <;> simp only [Attribute.name] <;> decide
    have inside := List.suffix_of_suffix_length_le own titled short
    revert inside
    cases property <;> simp only [Attribute.name] <;> decide
  · intro named
    rw [named]
    exact List.suffix_append _ _

/-- Titles lose their values, and other attributes stay as they are. -/
theorem Attribute.untitleFrom_write {property : Attribute} (plain : property.isPlain = true)
    (since rest : List Char) :
    untitleFrom since false (property.write ++ rest) =
      property.untitled.write ++ untitleFrom [] false rest := by
  have name : '"' ∉ ' ' :: property.name.toList ++ ['='] := by
    cases property <;> simp only [Attribute.name] <;> decide
  have value : '"' ∉ property.value := fun member =>
    Bool.noConfusion (Attribute.value_plain plain member)
  have split : property.write ++ rest = (' ' :: property.name.toList ++ ['=']) ++
      '"' :: (property.value ++ '"' :: rest) := by
    simp [property.write_eq]
  have untitledName : property.untitled.name = property.name := by
    cases property <;> rfl
  have untitledValue : property.untitled.value =
      if property.name == "title" then [] else property.value := by
    cases property <;> rfl
  rw [split, untitleFrom_outside name, untitleFrom, if_pos rfl, untitleFrom_inside value,
    property.isSuffixOf_name, property.untitled.write_eq, untitledName, untitledValue]
  simp only [List.append_assoc, List.cons_append, List.nil_append]

theorem untitleFrom_nil (since : List Char) (inside : Bool) : untitleFrom since inside [] = [] := by
  cases inside <;> rfl

theorem untitle_content {tag : Tag} (plain : tag.isPlain = true) :
    untitle tag.content = tag.untitled.content := by
  have name : ∀ element : Element, '"' ∉ element.tag.toList := by
    intro element
    cases element <;> decide
  cases tag with
  | closing element =>
      have unquoted : '"' ∉ (Tag.closing element).content := by
        cases element <;> decide
      have kept := untitleFrom_outside unquoted [] []
      rw [List.append_nil, untitleFrom_nil, List.append_nil] at kept
      exact kept
  | opening element attributes =>
      rw [untitle, Tag.content, untitleFrom_outside (name element)]
      refine congrArg (element.tag.toList ++ ·) ?_
      generalize [] ++ element.tag.toList = since
      induction attributes generalizing since with
      | nil => exact untitleFrom_nil _ _
      | cons first rest ih =>
          obtain ⟨firstPlain, restPlain⟩ := Bool.and_eq_true_iff.mp plain
          rw [List.flatMap_cons, first.untitleFrom_write firstPlain, ih restPlain]
          rfl

end GraphqlReference.Html
