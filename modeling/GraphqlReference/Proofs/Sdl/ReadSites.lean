import GraphqlReference.Proofs.Schema.ValueSites
import GraphqlReference.Proofs.Sdl.Consuming

namespace GraphqlReference

namespace Sdl

open Text

/-- A site is what a part of the source is read as. -/
def IsWritten (source : List Char) : ValueSite → Prop
  | .argument result => ∃ text rest, text <:+ source ∧ argument text = some (result, rest)
  | .usage result => ∃ text rest, text <:+ source ∧ usage text = some (result, rest)

def AllWritten (source : List Char) (sites : List ValueSite) : Prop :=
  ∀ site ∈ sites, IsWritten source site

theorem mem_enclosed {α : Type} {reader : Reader α} (consumes : Consumes reader)
    {opening closing : String} {text rest : List Char} {results : List α}
    (read : enclosed opening closing reader text = some (results, rest)) {result : α}
    (member : result ∈ results) :
    ∃ here rest, here <:+ text ∧ reader here = some (result, rest) := by
  obtain ⟨_, opened, read⟩ := Option.bind_eq_some_iff.mp read
  obtain ⟨_, found, read⟩ := Option.bind_eq_some_iff.mp read
  obtain ⟨_, _, ⟨⟩⟩ := Option.bind_eq_some_iff.mp read
  obtain ⟨here, rest, inside, readHere⟩ := consumes.of_some1 found member
  exact ⟨here, rest, inside.trans ((consumes_keyword opening).suffix opened), readHere⟩

section

variable {source : List Char}

theorem allWritten_append {first second : List ValueSite} :
    AllWritten source (first ++ second) ↔ AllWritten source first ∧ AllWritten source second :=
  List.forall_mem_append

/-- All sites in what a reader gives have been read in the source, if the reader has been given the
end of it. -/
def ReadsSites (source : List Char) {α : Type} (reader : Reader α) (sites : α → List ValueSite) :
    Prop :=
  ∀ text result rest, text <:+ source → reader text = some (result, rest) →
    AllWritten source (sites result)

theorem ReadsSites.enclosed {α : Type} {reader : Reader α} {sites : α → List ValueSite}
    (reads : ReadsSites source reader sites) (consumes : Consumes reader)
    (opening closing : String) :
    ReadsSites source (enclosed opening closing reader) fun results => results.flatMap sites := by
  intro text results rest inside read
  refine List.forall_mem_flatMap.mpr fun result member => ?_
  obtain ⟨here, _, within, readHere⟩ := mem_enclosed consumes read member
  exact reads _ _ _ (within.trans inside) readHere

theorem ReadsSites.optional {α : Type} {reader : Reader (List α)} {sites : α → List ValueSite}
    (reads : ReadsSites source reader fun results => results.flatMap sites) {text : List Char}
    (inside : text <:+ source) :
    AllWritten source (((Text.optional reader text).1.getD []).flatMap sites) := by
  unfold Text.optional
  split
  · exact reads _ _ _ inside ‹_›
  · exact fun _ member => absurd member List.not_mem_nil

theorem allWritten_usages {text : List Char} (inside : text <:+ source) :
    AllWritten source ((many usage text).1.map .usage) := by
  intro site member
  obtain ⟨result, among, rfl⟩ := List.mem_map.mp member
  obtain ⟨here, rest, within, read⟩ := consumes_usage.of_manyWithin among
  exact ⟨here, rest, within.trans inside, read⟩

theorem sites_argument : ReadsSites source argument Argument.sites := by
  intro text result rest inside read
  refine List.forall_mem_cons.mpr ⟨⟨text, rest, inside, read⟩, ?_⟩
  obtain ⟨_, readName, read⟩ := Option.bind_eq_some_iff.mp read
  obtain ⟨_, colon, read⟩ := Option.bind_eq_some_iff.mp read
  obtain ⟨⟨_, behind⟩, readType, ⟨⟩⟩ := Option.bind_eq_some_iff.mp read
  have default := consumes_defaultValue.optional behind
  exact allWritten_usages (((default.trans (consumes_typeRef.suffix readType)).trans
    (((consumes_keyword _).suffix colon).trans (consumes_name.suffix readName))).trans
      ((consumes_string.optional text).trans inside))

theorem allWritten_arguments {text : List Char} (inside : text <:+ source) :
    AllWritten source ((arguments text).1.flatMap Argument.sites) :=
  (sites_argument.enclosed consumes_argument "(" ")").optional inside

theorem sites_field : ReadsSites source field Field.sites := by
  intro text result rest inside read
  obtain ⟨⟨_, behindName⟩, readName, read⟩ := Option.bind_eq_some_iff.mp read
  obtain ⟨_, colon, read⟩ := Option.bind_eq_some_iff.mp read
  obtain ⟨_, readType, ⟨⟩⟩ := Option.bind_eq_some_iff.mp read
  have named := (consumes_name.suffix readName).trans ((consumes_string.optional text).trans inside)
  have typed := (consumes_typeRef.suffix readType).trans (((consumes_keyword _).suffix colon).trans
    ((arguments_suffix behindName).trans named))
  exact allWritten_append.mpr ⟨allWritten_usages typed, allWritten_arguments named⟩

theorem sites_enumItem : ReadsSites source enumItem EnumItem.sites := by
  intro text result rest inside read
  obtain ⟨_, readName, ⟨⟩⟩ := Option.bind_eq_some_iff.mp read
  exact allWritten_usages ((consumes_enumName.suffix readName).trans
    ((consumes_string.optional text).trans inside))

theorem ReadsSites.map {α β : Type} {reader : Reader α} {sites : α → List ValueSite}
    (reads : ReadsSites source reader sites) {change : α → β} {image : β → List ValueSite}
    (same : ∀ result, image (change result) = sites result) :
    ReadsSites source (fun text => (reader text).map fun (result, rest) => (change result, rest))
      image := by
  intro text result rest inside read
  obtain ⟨⟨found, _⟩, readFound, ⟨⟩⟩ := Option.map_eq_some_iff.mp read
  rw [same]
  exact reads _ _ _ inside readFound

theorem sites_body (kind : TypeKind) (interfaces : List String) :
    ReadsSites source (body kind interfaces) TypeBody.sites := by
  cases kind with
  | object | interface => exact (sites_field.enclosed consumes_field _ _).map fun _ => rfl
  | inputObject => exact (sites_argument.enclosed consumes_argument _ _).map fun _ => rfl
  | enum => exact (sites_enumItem.enclosed consumes_enumItem _ _).map fun _ => rfl
  | union =>
      intro text result rest inside read
      obtain ⟨_, _, ⟨⟩⟩ := Option.map_eq_some_iff.mp read
      exact fun _ member => absurd member List.not_mem_nil
  | scalar => exact fun _ _ _ _ read => nomatch read

theorem sites_emptyBody (kind : TypeKind) (interfaces : List String) :
    (emptyBody kind interfaces).sites = [] := by
  cases kind <;> rfl

theorem allWritten_optionalBody (kind : TypeKind) (interfaces : List String) {text : List Char}
    (inside : text <:+ source) :
    AllWritten source
      ((optional (body kind interfaces) text).1.getD (emptyBody kind interfaces)).sites := by
  unfold Text.optional
  split
  · exact sites_body kind interfaces _ _ _ inside ‹_›
  · rw [Option.getD_none, sites_emptyBody]
    exact fun _ member => absurd member List.not_mem_nil

end

end Sdl

namespace Sdl.WrittenDefinition

def sites : WrittenDefinition → List ValueSite
  | .schema _ usages _ => usages.map .usage
  | .type _ definition => definition.sites
  | .directive definition _ => definition.sites

end Sdl.WrittenDefinition

namespace Sdl

open Text

section

variable {source : List Char}

theorem sites_typeDefinition (kind : TypeKind) :
    ReadsSites source (typeDefinition kind) WrittenDefinition.sites := by
  intro text result rest inside read
  obtain ⟨_, marked, read⟩ := Option.bind_eq_some_iff.mp read
  obtain ⟨⟨_, behind⟩, readName, ⟨⟩⟩ := Option.bind_eq_some_iff.mp read
  have named := ((consumes_name.suffix readName).trans ((consumes_keyword _).suffix marked)).trans
    ((consumes_string.optional text).trans inside)
  have implemented := (implementing_suffix kind behind).trans named
  exact allWritten_append.mpr ⟨allWritten_usages implemented,
    allWritten_optionalBody kind _ ((consumes_usage.many _).trans implemented)⟩

theorem sites_typeExtension (kind : TypeKind) :
    ReadsSites source (typeExtension kind) WrittenDefinition.sites := by
  intro text result rest inside read
  obtain ⟨_, extending, read⟩ := Option.bind_eq_some_iff.mp read
  obtain ⟨_, marked, read⟩ := Option.bind_eq_some_iff.mp read
  obtain ⟨⟨_, behind⟩, readName, read⟩ := Option.bind_eq_some_iff.mp read
  have named := ((consumes_name.suffix readName).trans ((consumes_keyword _).suffix marked)).trans
    (((consumes_keyword _).suffix extending).trans inside)
  have implemented := (implementing_suffix kind behind).trans named
  have usages := allWritten_usages implemented
  dsimp only at read
  split at read
  · rename_i readBody
    obtain ⟨⟩ := read
    exact allWritten_append.mpr
      ⟨usages, sites_body kind _ _ _ _ ((consumes_usage.many _).trans implemented) readBody⟩
  · split at read
    · obtain ⟨⟩ := read
      refine allWritten_append.mpr ⟨usages, ?_⟩
      rw [sites_emptyBody]
      exact fun _ member => absurd member List.not_mem_nil
    · cases read

theorem sites_schemaDefinition : ReadsSites source schemaDefinition WrittenDefinition.sites := by
  intro text result rest inside read
  obtain ⟨_, marked, read⟩ := Option.bind_eq_some_iff.mp read
  obtain ⟨_, _, ⟨⟩⟩ := Option.bind_eq_some_iff.mp read
  exact allWritten_usages (((consumes_keyword _).suffix marked).trans inside)

theorem sites_schemaExtension : ReadsSites source schemaExtension WrittenDefinition.sites := by
  intro text result rest inside read
  obtain ⟨_, extending, read⟩ := Option.bind_eq_some_iff.mp read
  obtain ⟨_, marked, read⟩ := Option.bind_eq_some_iff.mp read
  have usages := allWritten_usages (((consumes_keyword _).suffix marked).trans
    (((consumes_keyword _).suffix extending).trans inside))
  dsimp only at read
  split at read
  · obtain ⟨⟩ := read
    exact usages
  · split at read
    · cases read
    · obtain ⟨⟩ := read
      exact usages

theorem sites_directiveDefinition :
    ReadsSites source directiveDefinition WrittenDefinition.sites := by
  intro text result rest inside read
  obtain ⟨_, marked, read⟩ := Option.bind_eq_some_iff.mp read
  obtain ⟨_, sign, read⟩ := Option.bind_eq_some_iff.mp read
  obtain ⟨_, readName, read⟩ := Option.bind_eq_some_iff.mp read
  obtain ⟨_, _, read⟩ := Option.bind_eq_some_iff.mp read
  obtain ⟨_, _, ⟨⟩⟩ := Option.bind_eq_some_iff.mp read
  exact allWritten_arguments (((consumes_name.suffix readName).trans
    (((consumes_keyword _).suffix sign).trans ((consumes_keyword _).suffix marked))).trans
      ((consumes_string.optional text).trans inside))

theorem sites_definition : ReadsSites source definition WrittenDefinition.sites := by
  intro text result rest inside read
  unfold definition at read
  rcases (Option.orElse_eq_some _ _ _).mp read with found | ⟨_, read⟩
  · exact sites_schemaDefinition _ _ _ inside found
  rcases (Option.orElse_eq_some _ _ _).mp read with found | ⟨_, read⟩
  · exact sites_schemaExtension _ _ _ inside found
  rcases (Option.orElse_eq_some _ _ _).mp read with found | ⟨_, read⟩
  · obtain ⟨kind, _, found⟩ := List.exists_of_findSome?_eq_some found
    rcases (Option.orElse_eq_some _ _ _).mp found with found | ⟨_, found⟩
    · exact sites_typeDefinition kind _ _ _ inside found
    · exact sites_typeExtension kind _ _ _ inside found
  · exact sites_directiveDefinition _ _ _ inside read

/-- All sites of a document are written in it. -/
theorem allWritten_definitions {written : List WrittenDefinition}
    (read : definitions? source = some written) :
    ∀ definition ∈ written, AllWritten source definition.sites := by
  intro definition member
  obtain ⟨text, rest, inside, readHere⟩ := exists_definition read member
  exact sites_definition _ _ _ inside readHere

end

end Sdl

end GraphqlReference
