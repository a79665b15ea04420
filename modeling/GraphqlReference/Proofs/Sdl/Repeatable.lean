import GraphqlReference.Proofs.Sdl.Consuming
import GraphqlReference.Proofs.Sdl.Ignored
import GraphqlReference.Proofs.Sdl.Merging

namespace GraphqlReference.Sdl

open Text

section

variable {text : List Char}

theorem afterLastParenthesis_of_not_mem (absent : ')' ∉ text) :
    afterLastParenthesis text = text := by
  have whole : text.reverse.takeWhile (· ≠ ')') = text.reverse := by
    refine List.takeWhile_eq_self_iff.mpr fun c member => ?_
    exact decide_eq_true fun same => absent (same ▸ List.mem_reverse.mp member)
  rw [afterLastParenthesis, whole, List.reverse_reverse]

theorem afterLastParenthesis_append_cons (before after : List Char) :
    afterLastParenthesis (before ++ ')' :: after) = afterLastParenthesis after := by
  unfold afterLastParenthesis
  rw [List.reverse_append, List.reverse_cons, List.append_assoc, List.takeWhile_append]
  split
  · rename_i whole
    have same : after.reverse.takeWhile (· ≠ ')') = after.reverse :=
      (List.takeWhile_prefix _).eq_of_length whole
    rw [same]
    simp
  · rfl

/-- The last parenthesis in front of the gap is that of the arguments, if there is one at all. -/
theorem afterLastParenthesis_append {taken gap : List Char}
    (closing : taken = [] ∨ ∃ inside, taken = inside ++ [')']) (unclosed : ')' ∉ gap) :
    afterLastParenthesis (taken ++ gap) = gap := by
  rcases closing with rfl | ⟨inside, rfl⟩
  · exact afterLastParenthesis_of_not_mem unclosed
  · rw [List.append_assoc]
    exact (afterLastParenthesis_append_cons inside gap).trans
      (afterLastParenthesis_of_not_mem unclosed)

theorem positionBefore_append (first second : List Char) :
    positionBefore (first ++ second) second.length = .after first := by
  rw [positionBefore, List.length_append, Nat.add_sub_cancel, List.take_left]

/-- The search goes through the text between the name and the first location. -/
theorem declaresRepeatable_between {source front name between behind : List Char}
    (whole : source = front ++ (name ++ (between ++ behind))) (paired : HasPairedReturns source)
    (begins : ¬ ['\n'] <+: name ++ (between ++ behind)) (located : ¬ ['\n'] <+: behind) :
    declaresRepeatable source name (positionBefore source (name ++ (between ++ behind)).length)
        (positionBefore source behind.length) =
      mentionsRepeatable (afterLastParenthesis between) := by
  have whole' : source = (front ++ name ++ between) ++ behind := by simp [whole]
  have nameOffset : (positionBefore source (name ++ (between ++ behind)).length).byteOffset?
      source = some (utf8Size front) := by
    rw [whole] at paired ⊢
    rw [positionBefore_append]
    exact Position.byteOffset?_after (paired.left begins) _
  have locationOffset : (positionBefore source behind.length).byteOffset? source =
      some (utf8Size (front ++ name ++ between)) := by
    rw [whole'] at paired ⊢
    rw [positionBefore_append]
    exact Position.byteOffset?_after (paired.left located) behind
  have slice : byteSlice? source (utf8Size front + utf8Size name)
      (utf8Size (front ++ name ++ between)) = some between := by
    rw [whole, ← utf8Size_append, ← List.append_assoc]
    exact byteSlice?_append (front ++ name) between behind
  simp only [declaresRepeatable, nameOffset, locationOffset, Option.bind_eq_bind, Option.bind_some,
    slice]

end

section

variable {text rest : List Char}

theorem nameHere_eq_some {name : String} (read : nameHere text = some (name, rest)) :
    text = name.toList ++ rest ∧ ¬ ['\n'] <+: text := by
  cases text with
  | nil => cases read
  | cons c others =>
      rw [nameHere] at read
      split at read
      · rename_i starts
        obtain ⟨⟩ := read
        refine ⟨by simp, ?_⟩
        rintro ⟨_, same⟩
        obtain rfl : '\n' = c := (List.cons.inj same).1
        exact absurd starts (by decide)
      · cases read

theorem keyword_eq_some {word : String} (read : keyword word text = some ((), rest)) :
    skip text = word.toList ++ rest := by
  obtain ⟨_, found, ⟨⟩⟩ := Option.map_eq_some_iff.mp read
  rw [behind?, List.isPrefixOf?_eq_some_iff_append_eq] at found
  exact found.symm

theorem exists_ignored_keyword {word : String} (nonempty : word.toList ≠ [])
    (paired : HasPairedReturns text) (read : keyword word text = some ((), rest)) :
    ∃ front, Ignored false front ∧ text = front ++ (word.toList ++ rest) := by
  have next := keyword_eq_some read
  have found : skipFrom false text ≠ [] := fun none =>
    nonempty (List.append_eq_nil_iff.mp (next.symm.trans none)).1
  obtain ⟨front, ignored, split⟩ := exists_ignored paired found
  exact ⟨front, ignored, next ▸ split⟩

theorem exists_arguments (text : List Char) : ∃ taken, text = taken ++ (arguments text).2 ∧
    (taken = [] ∨ ∃ inside, taken = inside ++ [')']) := by
  cases read : enclosed "(" ")" argument text with
  | none =>
      have same : (arguments text).2 = text := by simp [arguments, Text.optional, read]
      exact ⟨[], same.symm, .inl rfl⟩
  | some found =>
      have same : (arguments text).2 = found.2 := by simp [arguments, Text.optional, read]
      obtain ⟨⟨_, inside⟩, opened, read⟩ := Option.bind_eq_some_iff.mp read
      obtain ⟨⟨_, behind⟩, readArguments, read⟩ := Option.bind_eq_some_iff.mp read
      obtain ⟨⟨_, rest⟩, closed, ⟨⟩⟩ := Option.bind_eq_some_iff.mp read
      have bracket : skip behind = ')' :: rest := keyword_eq_some closed
      have consumed : ')' :: rest <:+ text := by
        rw [← bracket]
        exact ((skip_suffix behind).trans (consumes_argument.some1.suffix readArguments)).trans
          ((consumes_keyword "(").suffix opened)
      obtain ⟨front, split⟩ := consumed
      refine ⟨front ++ [')'], ?_, .inr ⟨front, rfl⟩⟩
      rw [same, List.append_assoc]
      exact split.symm

theorem location_eq_some {result : DirectiveLocation}
    (read : location text = some (result, rest)) :
    ∃ c others, c ≠ '\n' ∧ skip text = c :: others := by
  obtain ⟨result, _, read⟩ := List.exists_of_findSome?_eq_some read
  obtain ⟨_, found, ⟨⟩⟩ := Option.map_eq_some_iff.mp read
  have next := keyword_eq_some found
  cases result <;> exact ⟨_, _, by decide, next⟩

end

/-- The text in which the keyword may stand, from the name of a directive or from its arguments up
to its first location. -/
def keywordGap (source : List Char) (places : DirectivePlaces) : List Char :=
  match nameHere (source.drop (source.length - places.name)) with
  | none => []
  | some (_, behindName) =>
    let behind := (arguments behindName).2
    behind.take (behind.length - places.location)

/-- How a definition of a directive has been read somewhere in a text, given what stands behind its
name and at its locations. -/
structure IsReadAs (text : List Char) (definition : DirectiveDefinition) (places : DirectivePlaces)
    (behindName atLocations : List Char) : Prop where
  within : definition.name.toList ++ behindName <:+ text
  named : nameHere (definition.name.toList ++ behindName) = some (definition.name, behindName)
  preposition : keyword "on" (Text.optional (keyword "repeatable") (arguments behindName).2).2 =
    some ((), atLocations)
  declared : definition.repeatable =
    (Text.optional (keyword "repeatable") (arguments behindName).2).1.isSome
  located : ∃ c others, c ≠ '\n' ∧ firstLocationText atLocations = c :: others
  placed : places =
    ⟨(definition.name.toList ++ behindName).length, (firstLocationText atLocations).length⟩

theorem exists_isReadAs {source text rest : List Char} {definition : DirectiveDefinition}
    {places : DirectivePlaces} (inside : text <:+ source)
    (read : directiveDefinition text = some (.directive definition places, rest)) :
    ∃ behindName atLocations, IsReadAs source definition places behindName atLocations := by
  obtain ⟨_, marked, read⟩ := Option.bind_eq_some_iff.mp read
  obtain ⟨⟨_, atName⟩, atSign, read⟩ := Option.bind_eq_some_iff.mp read
  obtain ⟨⟨name, behindName⟩, readName, read⟩ := Option.bind_eq_some_iff.mp read
  obtain ⟨⟨_, atLocations⟩, preposition, read⟩ := Option.bind_eq_some_iff.mp read
  obtain ⟨_, readLocations, same⟩ := Option.bind_eq_some_iff.mp read
  obtain ⟨_, readFirst, _⟩ := Option.bind_eq_some_iff.mp readLocations
  obtain ⟨⟩ := same
  have named : nameHere (skip atName) = some (name, behindName) := readName
  obtain ⟨split, _⟩ := nameHere_eq_some named
  have described := (consumes_string.optional text).trans inside
  have within : skip atName <:+ source := (skip_suffix atName).trans
    (((consumes_keyword "@").suffix atSign).trans
      (((consumes_keyword "directive").suffix marked).trans described))
  rw [split] at named within
  exact ⟨behindName, atLocations, within, named, preposition, rfl, location_eq_some readFirst,
    by rw [← split]⟩

/-- What stands in front of the first location, depending on whether the keyword is declared. -/
inductive HoldsKeyword : Bool → List Char → Prop
  | written {before after : List Char} (ignored : Ignored false before)
      (mute : IsMute false after) : HoldsKeyword true (before ++ ("repeatable".toList ++ after))
  | absent {gap : List Char} (mute : IsMute false gap) : HoldsKeyword false gap

/-- Only ignored text stands in front of the keyword in the gap, and it stands clear of it and of
what follows. -/
def KeywordClear (gap : List Char) : Prop :=
  ∃ before after, gap = before ++ ("repeatable".toList ++ after) ∧
    skip gap = "repeatable".toList ++ after ∧ StandsClear before after

theorem HoldsKeyword.mentions_iff {declared : Bool} {gap : List Char}
    (holds : HoldsKeyword declared gap) :
    mentionsRepeatable gap = true ↔ declared = true ∧ KeywordClear gap := by
  cases holds with
  | @written before after ignored mute =>
      have next : skip (before ++ ("repeatable".toList ++ after)) = "repeatable".toList ++ after :=
        skipFrom_ignored ignored _
      rw [mentionsRepeatable_between (isMute_of_ignored ignored) mute]
      constructor
      · exact fun clear => ⟨rfl, before, after, rfl, next, clear⟩
      · rintro ⟨_, before', after', split, next', clear⟩
        obtain rfl := List.append_cancel_left (next.symm.trans next')
        obtain rfl := List.append_cancel_right split
        exact clear
  | absent mute => simpa using not_mentionsRepeatable mute

section

variable {text : List Char}

theorem exists_mute_location (paired : HasPairedReturns text)
    (located : firstLocationText text ≠ []) :
    ∃ front, IsMute false front ∧ text = front ++ firstLocationText text := by
  unfold firstLocationText Text.optional at located ⊢
  split
  · rename_i marked
    rw [marked] at located
    obtain ⟨before, ignored, rfl⟩ := exists_ignored_keyword (by decide) paired marked
    obtain ⟨after, ignored', split⟩ := exists_ignored paired.right.right located
    have bar : IsMute false "|".toList := isMute_of_not_mem (by decide) (by decide) (by decide)
    refine ⟨before ++ ("|".toList ++ after), ?_, ?_⟩
    · exact (isMute_of_ignored ignored).append (bar.append (isMute_of_ignored ignored'))
    · rw [List.append_assoc, List.append_assoc, skip, ← split]
  · rename_i unmarked
    rw [unmarked] at located
    obtain ⟨front, ignored, split⟩ := exists_ignored paired located
    exact ⟨front, isMute_of_ignored ignored, split⟩

theorem exists_gap {atLocations : List Char} (paired : HasPairedReturns text)
    (located : firstLocationText atLocations ≠ [])
    (read : keyword "on" (Text.optional (keyword "repeatable") text).2 = some ((), atLocations)) :
    ∃ gap, HoldsKeyword (Text.optional (keyword "repeatable") text).1.isSome gap ∧
      text = gap ++ firstLocationText atLocations := by
  have preposition : IsMute false "on".toList :=
    isMute_of_not_mem (by decide) (by decide) (by decide)
  unfold Text.optional at read ⊢
  cases found : keyword "repeatable" text with
  | none =>
      rw [found] at read
      obtain ⟨before, ignored, rfl⟩ := exists_ignored_keyword (by decide) paired read
      obtain ⟨after, mute, split⟩ := exists_mute_location paired.right.right located
      refine ⟨before ++ ("on".toList ++ after), .absent ?_, ?_⟩
      · exact (isMute_of_ignored ignored).append (preposition.append mute)
      · rw [List.append_assoc, List.append_assoc, ← split]
  | some result =>
      rw [found] at read
      obtain ⟨before, ignored, rfl⟩ := exists_ignored_keyword (by decide) paired found
      obtain ⟨between, ignored', split'⟩ :=
        exists_ignored_keyword (by decide) paired.right.right read
      have paired' := paired.right.right
      rw [split'] at paired' ⊢
      obtain ⟨after, mute, split⟩ := exists_mute_location paired'.right.right located
      refine ⟨before ++ ("repeatable".toList ++ (between ++ ("on".toList ++ after))),
        .written ignored ?_, ?_⟩
      · exact (isMute_of_ignored ignored').append (preposition.append mute)
      · simp only [List.append_assoc]
        rw [← split]

end

section

variable {source behindName atLocations : List Char} {definition : DirectiveDefinition}
  {places : DirectivePlaces}

theorem IsReadAs.keywordGap_eq (reading : IsReadAs source definition places behindName atLocations)
    {gap : List Char} (split : (arguments behindName).2 = gap ++ firstLocationText atLocations) :
    keywordGap source places = gap := by
  obtain ⟨front, rfl⟩ := reading.within
  have atName : (front ++ (definition.name.toList ++ behindName)).drop
      ((front ++ (definition.name.toList ++ behindName)).length - places.name) =
      definition.name.toList ++ behindName := by
    rw [reading.placed, List.length_append, Nat.add_sub_cancel, List.drop_left]
  rw [keywordGap, atName, reading.named]
  dsimp only
  rw [split, reading.placed, List.length_append, Nat.add_sub_cancel, List.take_left]

theorem IsReadAs.declaresRepeatable_iff
    (reading : IsReadAs source definition places behindName atLocations)
    (paired : HasPairedReturns source) (unclosed : ')' ∉ keywordGap source places) :
    declaresRepeatable source definition.name.toList (positionBefore source places.name)
        (positionBefore source places.location) = true ↔
      definition.repeatable = true ∧ KeywordClear (keywordGap source places) := by
  obtain ⟨c, others, visible, located⟩ := reading.located
  obtain ⟨front, whole⟩ := reading.within
  obtain ⟨taken, behind, closing⟩ := exists_arguments behindName
  have pairedBehind : HasPairedReturns (arguments behindName).2 := by
    rw [← whole, behind] at paired
    exact paired.right.right.right
  obtain ⟨gap, holds, split⟩ :=
    exists_gap pairedBehind (by simp [located]) reading.preposition
  have same := reading.keywordGap_eq split
  have regrouped : behindName = (taken ++ gap) ++ firstLocationText atLocations := by
    rw [List.append_assoc, ← split]
    exact behind
  have begins : ¬ ['\n'] <+: definition.name.toList ++ behindName :=
    (nameHere_eq_some reading.named).2
  have ends : ¬ ['\n'] <+: firstLocationText atLocations := by
    rw [located]
    rintro ⟨_, first⟩
    exact visible (List.cons.inj first).1.symm
  have searched : declaresRepeatable source definition.name.toList
      (positionBefore source places.name) (positionBefore source places.location) =
      mentionsRepeatable gap := by
    rw [regrouped] at whole begins
    rw [reading.placed, regrouped, declaresRepeatable_between whole.symm paired begins ends,
      afterLastParenthesis_append closing (same ▸ unclosed)]
  rw [searched, same, reading.declared]
  exact holds.mentions_iff

end

theorem directive?_parse {source : String} {schema : Schema} (parsed : parse source = .ok schema)
    {written : List WrittenDefinition} (read : definitions? source.toList = some written)
    {definition : DirectiveDefinition} {places : DirectivePlaces}
    (member : .directive definition places ∈ written)
    (user : definition.name ∉ BuiltIn.directives.map DirectiveDefinition.name) :
    ∃ loaded, schema.directive? definition.name = some loaded ∧ loaded.repeatable =
      declaresRepeatable source.toList definition.name.toList
        (positionBefore source.toList places.name)
        (positionBefore source.toList places.location) := by
  have distinct := (Schema.IsObtained.parse parsed).isDistinct.directives
  obtain ⟨definitions, readDefinitions, loaded⟩ := bind_eq_ok.mp parsed
  obtain ⟨builder, collected, built⟩ := bind_eq_ok.mp loaded
  obtain ⟨_, directives⟩ := collect_merged (isUser_readDocument readDefinitions) collected
  obtain ⟨_, found, resolved⟩ := readDocument_eq_ok.mp readDefinitions
  obtain rfl := Option.some.inj (found.symm.trans read)
  obtain ⟨_, inside, resolvedHere⟩ := mem_of_forall₂ resolved.flip member
  obtain ⟨arguments, _, rfl⟩ := resolve_directive_eq_ok.mp resolvedHere
  have declared := List.mem_append_right BuiltIn.directives (mem_userDirectives.mpr ⟨inside, user⟩)
  rw [← directives, ← (types_build built).2] at declared
  exact ⟨_, (find?_eq_some_iff distinct).mpr ⟨declared, rfl⟩, rfl⟩

/-- A directive is repeatable if its definition has the keyword and it stands clear of everything
else. Carriage returns must not stand alone and no comment in front of the locations may hold a
closing parenthesis. -/
theorem repeatable_iff {source : String} {schema : Schema} (parsed : parse source = .ok schema)
    {written : List WrittenDefinition} (read : definitions? source.toList = some written)
    {definition : DirectiveDefinition} {places : DirectivePlaces}
    (member : .directive definition places ∈ written)
    (user : definition.name ∉ BuiltIn.directives.map DirectiveDefinition.name)
    (paired : HasPairedReturns source.toList)
    (unclosed : ')' ∉ keywordGap source.toList places) :
    ∃ loaded, schema.directive? definition.name = some loaded ∧
      (loaded.repeatable = true ↔
        definition.repeatable = true ∧ KeywordClear (keywordGap source.toList places)) := by
  obtain ⟨loaded, found, same⟩ := directive?_parse parsed read member user
  obtain ⟨text, rest, inside, readHere⟩ := exists_definition read member
  obtain ⟨_, _, reading⟩ := exists_isReadAs inside (directiveDefinition_of_definition readHere)
  refine ⟨loaded, found, ?_⟩
  rw [same]
  exact reading.declaresRepeatable_iff paired unclosed

theorem repeatable_iff_blanks : ∃ schema loaded,
    parse "directive @a repeatable on OBJECT type Query" = .ok schema ∧
    schema.directive? "a" = some loaded ∧ loaded.repeatable = true := by
  obtain ⟨schema, parsed⟩ : ∃ schema,
      parse "directive @a repeatable on OBJECT type Query" = .ok schema := ⟨_, rfl⟩
  have read : definitions? "directive @a repeatable on OBJECT type Query".toList =
      some [.directive ⟨"a", none, .user, [], true, [.object]⟩ ⟨33, 17⟩,
        .type false ⟨"Query", none, .user, [], .object [] []⟩] := by rfl
  have gap : keywordGap "directive @a repeatable on OBJECT type Query".toList ⟨33, 17⟩ =
      " repeatable on ".toList := by rfl
  obtain ⟨loaded, found, same⟩ := repeatable_iff parsed read List.mem_cons_self (by decide)
    (hasPairedReturns_of_not_mem (by decide)) (by rw [gap]; decide)
  have clear : KeywordClear " repeatable on ".toList :=
    ⟨[' '], [' ', 'o', 'n', ' '], rfl, rfl, ⟨by simp [isBlank], by simp [isBlank]⟩⟩
  rw [gap] at same
  exact ⟨schema, loaded, parsed, found, same.mpr ⟨rfl, clear⟩⟩

/-- Readers ignore a comma behind the keyword, the search does not. -/
theorem not_repeatable_iff_declared : ¬ ∀ (source : String) (schema : Schema)
    (written : List WrittenDefinition) (definition : DirectiveDefinition)
    (places : DirectivePlaces), parse source = .ok schema →
    definitions? source.toList = some written → .directive definition places ∈ written →
    definition.name ∉ BuiltIn.directives.map DirectiveDefinition.name →
    ∃ loaded, schema.directive? definition.name = some loaded ∧
      (loaded.repeatable = true ↔ definition.repeatable = true) := by
  intro declared
  obtain ⟨schema, parsed⟩ : ∃ schema,
      parse "directive @a repeatable, on OBJECT type Query" = .ok schema := ⟨_, rfl⟩
  have read : definitions? "directive @a repeatable, on OBJECT type Query".toList =
      some [.directive ⟨"a", none, .user, [], true, [.object]⟩ ⟨34, 17⟩,
        .type false ⟨"Query", none, .user, [], .object [] []⟩] := by rfl
  obtain ⟨loaded, found, same⟩ := declared _ _ _ _ _ parsed read List.mem_cons_self (by decide)
  obtain ⟨_, found', searched⟩ := directive?_parse parsed read List.mem_cons_self (by decide)
  obtain rfl := Option.some.inj (found.symm.trans found')
  have missed : loaded.repeatable = false := searched.trans (by decide +kernel)
  rw [same.mpr rfl] at missed
  cases missed

end GraphqlReference.Sdl
