import GraphqlReference.Proofs.Sdl.Definitions
import GraphqlReference.Proofs.Text.Consuming

namespace GraphqlReference.Sdl

open Text

theorem skipFrom_suffix (inComment : Bool) (text : List Char) :
    skipFrom inComment text <:+ text := by
  induction text generalizing inComment with
  | nil => exact List.suffix_rfl
  | cons c rest ih =>
      unfold skipFrom
      split
      · exact (ih _).trans (List.suffix_cons c rest)
      · split
        · exact (ih _).trans (List.suffix_cons c rest)
        · split
          · exact (ih _).trans (List.suffix_cons c rest)
          · exact List.suffix_rfl

theorem skip_suffix (text : List Char) : skip text <:+ text :=
  skipFrom_suffix false text

section

variable {α : Type} {reader : Reader α}

theorem consumes_afterSkip (consumes : Consumes reader) :
    Consumes fun text => reader (skip text) :=
  ⟨fun read => (consumes.suffix read).trans (skip_suffix _)⟩

theorem consumes_keyword (word : String) : Consumes (keyword word) := by
  refine ⟨fun {text result rest} read => ?_⟩
  obtain ⟨_, found, ⟨⟩⟩ := Option.map_eq_some_iff.mp read
  exact (suffix_of_behind? found).trans (skip_suffix text)

theorem consumes_enclosed (opening closing : String) (consumes : Consumes reader) :
    Consumes (enclosed opening closing reader) := by
  refine ⟨fun {text results rest} read => ?_⟩
  obtain ⟨_, opened, read⟩ := Option.bind_eq_some_iff.mp read
  obtain ⟨_, found, read⟩ := Option.bind_eq_some_iff.mp read
  obtain ⟨_, closed, ⟨⟩⟩ := Option.bind_eq_some_iff.mp read
  exact (((consumes_keyword closing).suffix closed).trans (consumes.some1.suffix found)).trans
    ((consumes_keyword opening).suffix opened)

theorem consumes_separated (mark : String) (consumes : Consumes reader) :
    Consumes (separated mark reader) := by
  refine ⟨fun {text results rest} read => ?_⟩
  obtain ⟨_, readFirst, ⟨⟩⟩ := Option.bind_eq_some_iff.mp read
  have next : Consumes fun text => (keyword mark text).bind fun found => reader found.2 := by
    refine ⟨fun {text result rest} read => ?_⟩
    obtain ⟨_, marked, read⟩ := Option.bind_eq_some_iff.mp read
    exact (consumes.suffix read).trans ((consumes_keyword mark).suffix marked)
  exact (next.many _).trans
    ((consumes.suffix readFirst).trans ((consumes_keyword mark).optional text))

end

theorem consumes_nameHere : Consumes nameHere := by
  refine ⟨fun {text result rest} read => ?_⟩
  cases text with
  | nil => cases read
  | cons c behind =>
      simp only [nameHere] at read
      split at read
      · obtain ⟨⟩ := read
        exact (List.dropWhile_suffix _).trans (List.suffix_cons c behind)
      · cases read

theorem consumes_name : Consumes name :=
  consumes_afterSkip consumes_nameHere

theorem consumes_enumName : Consumes enumName := by
  refine ⟨fun {text result rest} read => ?_⟩
  unfold enumName at read
  dsimp only at read
  split at read
  · cases read
  · exact consumes_name.suffix read

theorem consumes_quotedRest : Consumes quotedRest := by
  refine ⟨fun {text result rest} read => ?_⟩
  fun_induction quotedRest text generalizing result rest with
  | case1 => cases read
  | case2 behind =>
      obtain ⟨⟩ := read
      exact List.suffix_cons '"' _
  | case3 a b c d behind ih =>
      obtain ⟨_, _, read⟩ := Option.bind_eq_some_iff.mp read
      obtain ⟨_, readMore, ⟨⟩⟩ := Option.bind_eq_some_iff.mp read
      exact (ih readMore).trans (List.suffix_append ['\\', 'u', a, b, c, d] behind)
  | case4 mark behind _ ih =>
      obtain ⟨_, _, read⟩ := Option.bind_eq_some_iff.mp read
      obtain ⟨_, readMore, ⟨⟩⟩ := Option.bind_eq_some_iff.mp read
      exact (ih readMore).trans (List.suffix_append ['\\', mark] behind)
  | case5 => cases read
  | case6 c behind _ _ _ _ ih =>
      obtain ⟨_, readMore, ⟨⟩⟩ := Option.map_eq_some_iff.mp read
      exact (ih readMore).trans (List.suffix_cons c behind)

theorem consumes_blockRest : Consumes blockRest := by
  refine ⟨fun {text result rest} read => ?_⟩
  fun_induction blockRest text generalizing result rest with
  | case1 => cases read
  | case2 behind =>
      obtain ⟨⟩ := read
      exact List.suffix_append ['"', '"', '"'] _
  | case3 behind ih =>
      obtain ⟨_, readMore, ⟨⟩⟩ := Option.map_eq_some_iff.mp read
      exact (ih readMore).trans (List.suffix_append ['\\', '"', '"', '"'] behind)
  | case4 c behind _ _ ih =>
      obtain ⟨_, readMore, ⟨⟩⟩ := Option.map_eq_some_iff.mp read
      exact (ih readMore).trans (List.suffix_cons c behind)

theorem consumes_stringHere : Consumes stringHere := by
  refine ⟨fun {text result rest} read => ?_⟩
  unfold stringHere at read
  split at read
  · rename_i behind
    split at read
    · rename_i found
      obtain ⟨⟩ := read
      exact (consumes_blockRest.suffix found).trans (List.suffix_append ['"', '"', '"'] behind)
    · obtain ⟨⟩ := read
      exact List.suffix_append ['"', '"'] ('"' :: behind)
  · rename_i behind _
    obtain ⟨_, found, ⟨⟩⟩ := Option.map_eq_some_iff.mp read
    exact (consumes_quotedRest.suffix found).trans (List.suffix_cons '"' behind)
  · cases read

theorem consumes_string : Consumes string :=
  consumes_afterSkip consumes_stringHere

theorem consumes_wholeDigits : Consumes wholeDigits := by
  refine ⟨fun {text result rest} read => ?_⟩
  unfold wholeDigits at read
  split at read
  · obtain ⟨⟩ := read
    exact List.suffix_cons '0' rest
  · split at read
    · rename_i c behind _ _
      obtain ⟨⟩ := read
      exact (List.dropWhile_suffix _).trans (List.suffix_cons c behind)
    · cases read
  · cases read

theorem consumes_digits1 : Consumes digits1 := by
  refine ⟨fun {text result rest} read => ?_⟩
  unfold digits1 at read
  dsimp only at read
  split at read
  · cases read
  · obtain ⟨⟩ := read
    exact List.dropWhile_suffix _

theorem consumes_fractionHere : Consumes fractionHere := by
  refine ⟨fun {text result rest} read => ?_⟩
  unfold fractionHere at read
  split at read
  · rename_i behind
    exact (consumes_digits1.suffix read).trans (List.suffix_cons '.' behind)
  · cases read

theorem splitSign_suffix (text : List Char) : (Binary64.splitSign text).2 <:+ text := by
  unfold Binary64.splitSign
  split
  · exact List.suffix_cons _ _
  · exact List.suffix_cons _ _
  · exact List.suffix_rfl

theorem consumes_exponentHere : Consumes exponentHere := by
  refine ⟨fun {text result rest} read => ?_⟩
  unfold exponentHere at read
  split at read
  · cases read
  · rename_i mark behind
    split at read
    · obtain ⟨_, found, ⟨⟩⟩ := Option.map_eq_some_iff.mp read
      exact ((consumes_digits1.suffix found).trans (splitSign_suffix behind)).trans
        (List.suffix_cons mark behind)
    · cases read

theorem consumes_numberHere : Consumes numberHere := by
  refine ⟨fun {text result rest} read => ?_⟩
  obtain ⟨⟨_, behind⟩, readWhole, read⟩ := Option.bind_eq_some_iff.mp read
  dsimp only at read
  split at read
  · cases read
  · obtain ⟨⟩ := read
    have whole : behind <:+ text := by
      refine (consumes_wholeDigits.suffix readWhole).trans ?_
      split
      · exact List.suffix_cons _ _
      · exact List.suffix_rfl
    have exponent := consumes_exponentHere.optional (optional fractionHere behind).2
    exact (exponent.trans (consumes_fractionHere.optional behind)).trans whole

theorem consumes_number : Consumes number :=
  (consumes_afterSkip consumes_numberHere).map NumberLiteral.value

theorem consumes_wordValue : Consumes wordValue? := by
  refine ⟨fun {text value rest} read => ?_⟩
  unfold wordValue? at read
  split at read
  · rename_i found
    obtain ⟨⟩ := read
    exact suffix_of_behind? found
  · split at read
    · rename_i found
      obtain ⟨⟩ := read
      exact suffix_of_behind? found
    · obtain ⟨_, found, ⟨⟩⟩ := Option.map_eq_some_iff.mp read
      exact suffix_of_behind? found

theorem consumes_leaf : Consumes leaf :=
  consumes_number.orElse ((consumes_string.map .string).orElse
    ((consumes_afterSkip consumes_wordValue).orElse (consumes_enumName.map .enum)))

theorem consumes_namedValue {value : Reader Value} (consumes : Consumes value) :
    Consumes (namedValue value) := by
  refine ⟨fun {text result rest} read => ?_⟩
  obtain ⟨_, readName, read⟩ := Option.bind_eq_some_iff.mp read
  obtain ⟨_, colon, read⟩ := Option.bind_eq_some_iff.mp read
  obtain ⟨_, readValue, ⟨⟩⟩ := Option.bind_eq_some_iff.mp read
  exact (consumes.suffix readValue).trans
    (((consumes_keyword _).suffix colon).trans (consumes_name.suffix readName))

theorem consumes_valueWithin (depth : Nat) : Consumes (valueWithin depth) := by
  induction depth with
  | zero => exact consumes_leaf
  | succ depth ih =>
      refine ⟨fun {text value rest} read => ?_⟩
      unfold valueWithin at read
      split at read
      · rename_i found readLeaf
        obtain rfl : found = (value, rest) := Option.some.inj read
        exact consumes_leaf.suffix readLeaf
      · have skipped := skip_suffix text
        split at read
        · rename_i behind bracket
          obtain ⟨_, closed, ⟨⟩⟩ := Option.bind_eq_some_iff.mp read
          rw [bracket] at skipped
          exact (((consumes_keyword _).suffix closed).trans (ih.many behind)).trans
            ((List.suffix_cons _ behind).trans skipped)
        · rename_i behind brace
          obtain ⟨_, closed, ⟨⟩⟩ := Option.bind_eq_some_iff.mp read
          rw [brace] at skipped
          exact (((consumes_keyword _).suffix closed).trans
            ((consumes_namedValue ih).many behind)).trans
              ((List.suffix_cons _ behind).trans skipped)
        · cases read

theorem consumes_value : Consumes value :=
  ⟨fun read => (consumes_valueWithin _).suffix read⟩

theorem withNonNull_suffix (type : TypeRef) (text : List Char) :
    (withNonNull type text).2 <:+ text := by
  unfold withNonNull
  split
  · exact List.suffix_cons _ _
  · exact List.suffix_rfl

theorem consumes_typeRefHere : Consumes typeRefHere := by
  refine ⟨fun {text result rest} read => ?_⟩
  fun_induction typeRefHere text generalizing result rest with
  | case1 => cases read
  | case2 behind inner more found ih =>
      have same : (withNonNull (.list inner) more).2 = rest := by rw [Option.some.inj read]
      rw [← same]
      exact ((withNonNull_suffix _ more).trans (List.suffix_cons ']' more)).trans
        ((ih found).trans (List.suffix_cons '[' behind))
  | case3 => cases read
  | case4 c behind _ =>
      obtain ⟨⟨name, more⟩, found, named⟩ := Option.map_eq_some_iff.mp read
      have same : (withNonNull (.named name) more).2 = rest := congrArg Prod.snd named
      rw [← same]
      exact (withNonNull_suffix _ more).trans (consumes_nameHere.suffix found)

theorem consumes_typeRef : Consumes typeRef :=
  consumes_afterSkip consumes_typeRefHere

theorem consumes_usage : Consumes usage := by
  refine ⟨fun {text result rest} read => ?_⟩
  obtain ⟨_, marked, read⟩ := Option.bind_eq_some_iff.mp read
  obtain ⟨⟨_, behind⟩, readName, ⟨⟩⟩ := Option.bind_eq_some_iff.mp read
  have arguments := consumes_enclosed "(" ")" (consumes_namedValue consumes_value)
  exact ((arguments.optional behind).trans (consumes_name.suffix readName)).trans
    ((consumes_keyword _).suffix marked)

theorem consumes_defaultValue : Consumes defaultValue := by
  refine ⟨fun {text value rest} read => ?_⟩
  obtain ⟨_, marked, read⟩ := Option.bind_eq_some_iff.mp read
  exact (consumes_value.suffix read).trans ((consumes_keyword _).suffix marked)

theorem consumes_argument : Consumes argument := by
  refine ⟨fun {text result rest} read => ?_⟩
  obtain ⟨_, readName, read⟩ := Option.bind_eq_some_iff.mp read
  obtain ⟨_, colon, read⟩ := Option.bind_eq_some_iff.mp read
  obtain ⟨⟨_, behind⟩, readType, ⟨⟩⟩ := Option.bind_eq_some_iff.mp read
  have usages := consumes_usage.many (optional defaultValue behind).2
  have default := consumes_defaultValue.optional behind
  exact ((usages.trans default).trans (consumes_typeRef.suffix readType)).trans
    ((((consumes_keyword _).suffix colon).trans (consumes_name.suffix readName)).trans
      (consumes_string.optional text))

theorem arguments_suffix (text : List Char) : (arguments text).2 <:+ text :=
  (consumes_enclosed "(" ")" consumes_argument).optional text

theorem consumes_field : Consumes field := by
  refine ⟨fun {text result rest} read => ?_⟩
  obtain ⟨⟨_, behindName⟩, readName, read⟩ := Option.bind_eq_some_iff.mp read
  obtain ⟨_, colon, read⟩ := Option.bind_eq_some_iff.mp read
  obtain ⟨⟨_, behind⟩, readType, ⟨⟩⟩ := Option.bind_eq_some_iff.mp read
  exact (((consumes_usage.many behind).trans (consumes_typeRef.suffix readType)).trans
    ((consumes_keyword _).suffix colon)).trans (((arguments_suffix behindName).trans
      (consumes_name.suffix readName)).trans (consumes_string.optional text))

theorem consumes_enumItem : Consumes enumItem := by
  refine ⟨fun {text result rest} read => ?_⟩
  obtain ⟨⟨_, behind⟩, readName, ⟨⟩⟩ := Option.bind_eq_some_iff.mp read
  exact ((consumes_usage.many behind).trans (consumes_enumName.suffix readName)).trans
    (consumes_string.optional text)

theorem consumes_interfaceNames : Consumes interfaceNames := by
  refine ⟨fun {text names rest} read => ?_⟩
  obtain ⟨_, marked, read⟩ := Option.bind_eq_some_iff.mp read
  exact ((consumes_separated "&" consumes_name).suffix read).trans
    ((consumes_keyword _).suffix marked)

theorem consumes_unionMembers : Consumes unionMembers := by
  refine ⟨fun {text names rest} read => ?_⟩
  obtain ⟨_, marked, read⟩ := Option.bind_eq_some_iff.mp read
  exact ((consumes_separated "|" consumes_name).suffix read).trans
    ((consumes_keyword _).suffix marked)

theorem consumes_body (kind : TypeKind) (interfaces : List String) :
    Consumes (body kind interfaces) := by
  cases kind with
  | object | interface => exact (consumes_enclosed _ _ consumes_field).map _
  | inputObject => exact (consumes_enclosed _ _ consumes_argument).map _
  | enum => exact (consumes_enclosed _ _ consumes_enumItem).map _
  | union => exact consumes_unionMembers.map _
  | scalar => exact ⟨fun read => nomatch read⟩

theorem implementing_suffix (kind : TypeKind) (text : List Char) :
    (implementing kind text).2 <:+ text := by
  unfold implementing
  split
  · exact consumes_interfaceNames.optional text
  · exact List.suffix_rfl

theorem consumes_typeDefinition (kind : TypeKind) : Consumes (typeDefinition kind) := by
  refine ⟨fun {text result rest} read => ?_⟩
  obtain ⟨_, marked, read⟩ := Option.bind_eq_some_iff.mp read
  obtain ⟨⟨_, behind⟩, readName, ⟨⟩⟩ := Option.bind_eq_some_iff.mp read
  have usages := consumes_usage.many (implementing kind behind).2
  exact ((((consumes_body kind _).optional _).trans usages).trans
    (implementing_suffix kind behind)).trans (((consumes_name.suffix readName).trans
      ((consumes_keyword _).suffix marked)).trans (consumes_string.optional text))

theorem consumes_typeExtension (kind : TypeKind) : Consumes (typeExtension kind) := by
  refine ⟨fun {text result rest} read => ?_⟩
  obtain ⟨_, extending, read⟩ := Option.bind_eq_some_iff.mp read
  obtain ⟨_, marked, read⟩ := Option.bind_eq_some_iff.mp read
  obtain ⟨⟨_, behind⟩, readName, read⟩ := Option.bind_eq_some_iff.mp read
  have named := (consumes_name.suffix readName).trans
    (((consumes_keyword _).suffix marked).trans ((consumes_keyword _).suffix extending))
  have usages := (consumes_usage.many (implementing kind behind).2).trans
    ((implementing_suffix kind behind).trans named)
  dsimp only at read
  split at read
  · rename_i readBody
    obtain ⟨⟩ := read
    exact ((consumes_body kind _).suffix readBody).trans usages
  · split at read
    · obtain ⟨⟩ := read
      exact usages
    · cases read

theorem consumes_operation : Consumes operation := by
  refine ⟨fun {text result rest} read => ?_⟩
  obtain ⟨operation, _, read⟩ := List.exists_of_findSome?_eq_some read
  obtain ⟨_, found, ⟨⟩⟩ := Option.map_eq_some_iff.mp read
  exact (consumes_keyword _).suffix found

theorem consumes_roots : Consumes roots := by
  refine consumes_enclosed _ _ ?_
  refine ⟨fun {text result rest} read => ?_⟩
  obtain ⟨_, readOperation, read⟩ := Option.bind_eq_some_iff.mp read
  obtain ⟨_, colon, read⟩ := Option.bind_eq_some_iff.mp read
  obtain ⟨_, readName, ⟨⟩⟩ := Option.bind_eq_some_iff.mp read
  exact ((consumes_name.suffix readName).trans ((consumes_keyword _).suffix colon)).trans
    (consumes_operation.suffix readOperation)

theorem consumes_schemaDefinition : Consumes schemaDefinition := by
  refine ⟨fun {text result rest} read => ?_⟩
  obtain ⟨⟨_, behind⟩, marked, read⟩ := Option.bind_eq_some_iff.mp read
  obtain ⟨_, readRoots, ⟨⟩⟩ := Option.bind_eq_some_iff.mp read
  exact ((consumes_roots.suffix readRoots).trans (consumes_usage.many behind)).trans
    ((consumes_keyword _).suffix marked)

theorem consumes_schemaExtension : Consumes schemaExtension := by
  refine ⟨fun {text result rest} read => ?_⟩
  obtain ⟨_, extending, read⟩ := Option.bind_eq_some_iff.mp read
  obtain ⟨⟨_, behind⟩, marked, read⟩ := Option.bind_eq_some_iff.mp read
  have usages := (consumes_usage.many behind).trans
    (((consumes_keyword _).suffix marked).trans ((consumes_keyword _).suffix extending))
  dsimp only at read
  split at read
  · rename_i readRoots
    obtain ⟨⟩ := read
    exact (consumes_roots.suffix readRoots).trans usages
  · split at read
    · cases read
    · obtain ⟨⟩ := read
      exact usages

theorem consumes_location : Consumes location := by
  refine ⟨fun {text result rest} read => ?_⟩
  obtain ⟨location, _, read⟩ := List.exists_of_findSome?_eq_some read
  obtain ⟨_, found, ⟨⟩⟩ := Option.map_eq_some_iff.mp read
  exact (consumes_keyword _).suffix found

theorem consumes_directiveDefinition : Consumes directiveDefinition := by
  refine ⟨fun {text result rest} read => ?_⟩
  obtain ⟨_, marked, read⟩ := Option.bind_eq_some_iff.mp read
  obtain ⟨_, atSign, read⟩ := Option.bind_eq_some_iff.mp read
  obtain ⟨⟨_, behind⟩, readName, read⟩ := Option.bind_eq_some_iff.mp read
  obtain ⟨_, preposition, read⟩ := Option.bind_eq_some_iff.mp read
  obtain ⟨_, readLocations, ⟨⟩⟩ := Option.bind_eq_some_iff.mp read
  have named := (consumes_name.suffix readName).trans ((((consumes_keyword _).suffix atSign).trans
    ((consumes_keyword _).suffix marked)).trans (consumes_string.optional text))
  have repeatable := ((consumes_keyword "repeatable").optional (arguments behind).2).trans
    ((arguments_suffix behind).trans named)
  exact ((consumes_separated "|" consumes_location).suffix readLocations).trans
    (((consumes_keyword _).suffix preposition).trans repeatable)

theorem consumes_definition : Consumes definition := by
  have types : Consumes fun text => typeKinds.findSome? fun kind =>
      typeDefinition kind text <|> typeExtension kind text := by
    refine ⟨fun {text result rest} read => ?_⟩
    obtain ⟨kind, _, read⟩ := List.exists_of_findSome?_eq_some read
    exact ((consumes_typeDefinition kind).orElse (consumes_typeExtension kind)).suffix read
  exact consumes_schemaDefinition.orElse (consumes_schemaExtension.orElse
    (types.orElse consumes_directiveDefinition))

/-- Each definition of a document has been read somewhere in it. -/
theorem exists_definition {source : List Char} {written : List WrittenDefinition}
    (read : definitions? source = some written) {result : WrittenDefinition}
    (member : result ∈ written) :
    ∃ text rest, text <:+ source ∧ definition text = some (result, rest) := by
  unfold definitions? at read
  split at read
  · rename_i found
    split at read
    · obtain ⟨⟩ := read
      exact consumes_definition.of_some1 found member
    · cases read
  · cases read

end GraphqlReference.Sdl
