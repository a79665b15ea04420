import GraphqlReference.Proofs.Page.Names
import GraphqlReference.Proofs.Sdl.Definitions
import GraphqlReference.Proofs.Text.Lines

namespace GraphqlReference

/-- A name that shows something. -/
def IsNamed (name : String) : Prop :=
  Text.isVisible name.toList = true

abbrev AllNamed (names : List String) : Prop :=
  ∀ name ∈ names, IsNamed name

theorem allNamed_nil : AllNamed [] :=
  fun _ member => absurd member List.not_mem_nil

theorem allNamed_cons {name : String} {names : List String} :
    AllNamed (name :: names) ↔ IsNamed name ∧ AllNamed names :=
  List.forall_mem_cons

theorem allNamed_append {first second : List String} :
    AllNamed (first ++ second) ↔ AllNamed first ∧ AllNamed second :=
  List.forall_mem_append

theorem allNamed_flatMap {α : Type} {items : List α} {names : α → List String}
    (named : ∀ item ∈ items, AllNamed (names item)) : AllNamed (items.flatMap names) := by
  intro name member
  obtain ⟨item, inside, here⟩ := List.mem_flatMap.mp member
  exact named item inside name here

theorem AllNamed.of_flatMap {α : Type} {items : List α} {names : α → List String}
    (named : AllNamed (items.flatMap names)) : ∀ item ∈ items, AllNamed (names item) :=
  fun _ member _ inside => named _ (List.mem_flatMap_of_mem member inside)

theorem allNamed_flatMap_append {α : Type} {first second : List α} {names : α → List String}
    (named : AllNamed (first.flatMap names)) (named' : AllNamed (second.flatMap names)) :
    AllNamed ((first ++ second).flatMap names) := by
  rw [List.flatMap_append]
  exact allNamed_append.mpr ⟨named, named'⟩

namespace Sdl

open Text

theorem toNat_isNameStart {c : Char} (start : isNameStart c = true) :
    65 ≤ c.toNat ∧ c.toNat ≤ 90 ∨ c.toNat = 95 ∨ 97 ≤ c.toNat ∧ c.toNat ≤ 122 := by
  rcases Bool.or_eq_true_iff.mp start with letter | underscore
  · rcases Bool.or_eq_true_iff.mp letter with upper | lower
    · have bounds : 65 ≤ c.toNat ∧ c.toNat ≤ 90 := of_decide_eq_true upper
      exact .inl bounds
    · obtain ⟨low, high⟩ := Bool.and_eq_true_iff.mp lower
      exact .inr (.inr ⟨of_decide_eq_true low, of_decide_eq_true high⟩)
  · rw [beq_iff_eq.mp underscore]
    exact .inr (.inl rfl)

theorem isBlank_of_isNameStart {c : Char} (start : isNameStart c = true) : isBlank c = false := by
  have range := toNat_isNameStart start
  simp only [isBlank, Bool.or_eq_false_iff, Bool.and_eq_false_iff, decide_eq_false_iff_not,
    beq_eq_false_iff_ne]
  omega

theorem reads_nameHere : Reads nameHere IsNamed := by
  intro text result rest read
  cases text with
  | nil => cases read
  | cons c behind =>
      simp only [nameHere] at read
      split at read
      · rename_i start
        obtain ⟨⟩ := read
        exact isVisible_of_mem (by simp) (isBlank_of_isNameStart start)
      · cases read

theorem reads_name : Reads name IsNamed :=
  fun _ => reads_nameHere _

theorem reads_enumName : Reads enumName IsNamed := by
  intro text result rest read
  unfold enumName at read
  dsimp only at read
  split at read
  · cases read
  · exact reads_nameHere _ _ _ read

theorem reads_enclosed {α : Type} {opening closing : String} {reader : Reader α}
    {property : α → Prop} (reads : Reads reader property) :
    Reads (enclosed opening closing reader) fun results => ∀ result ∈ results, property result := by
  intro text results rest read
  obtain ⟨_, _, read⟩ := Option.bind_eq_some_iff.mp read
  obtain ⟨_, found, read⟩ := Option.bind_eq_some_iff.mp read
  obtain ⟨_, _, ⟨⟩⟩ := Option.bind_eq_some_iff.mp read
  exact reads.some1 _ _ _ found

theorem names_number (number : NumberLiteral) : number.value.names = [] := by
  unfold NumberLiteral.value
  dsimp only
  split
  · split
    · rfl
    · split <;> rfl
  · rfl

theorem reads_number : Reads number fun value => AllNamed value.names := by
  intro text value rest read
  obtain ⟨⟨literal, _⟩, _, ⟨⟩⟩ := Option.map_eq_some_iff.mp read
  rw [names_number]
  exact allNamed_nil

theorem reads_wordValue : Reads wordValue? fun value => AllNamed value.names := by
  intro text value rest read
  have none : value.names = [] := by
    unfold wordValue? at read
    split at read
    · obtain ⟨⟩ := read
      rfl
    · split at read
      · obtain ⟨⟩ := read
        rfl
      · obtain ⟨_, _, ⟨⟩⟩ := Option.map_eq_some_iff.mp read
        rfl
  rw [none]
  exact allNamed_nil

theorem reads_leaf : Reads leaf fun value => AllNamed value.names := by
  have word : Reads (fun text => wordValue? (skip text)) fun value => AllNamed value.names :=
    fun _ => reads_wordValue _
  have content : Reads string fun _ => True := fun _ _ _ _ => trivial
  refine reads_number.orElse (Reads.orElse ?_ (word.orElse ?_))
  · exact content.map fun _ _ => allNamed_nil
  · exact reads_enumName.map fun name named => List.forall_mem_singleton.mpr named

theorem reads_namedValue {value : Reader Value}
    (reads : Reads value fun value => AllNamed value.names) :
    Reads (namedValue value) fun entry => AllNamed (entry.1 :: entry.2.names) := by
  intro text result rest read
  obtain ⟨_, readName, read⟩ := Option.bind_eq_some_iff.mp read
  obtain ⟨_, _, read⟩ := Option.bind_eq_some_iff.mp read
  obtain ⟨_, readValue, ⟨⟩⟩ := Option.bind_eq_some_iff.mp read
  exact allNamed_cons.mpr ⟨reads_name _ _ _ readName, reads _ _ _ readValue⟩

theorem itemNames_eq (items : List Value) : Value.itemNames items = items.flatMap Value.names := by
  induction items with
  | nil => rfl
  | cons item rest ih => rw [Value.itemNames, ih, List.flatMap_cons]

theorem fieldNames_eq (fields : List (String × Value)) :
    Value.fieldNames fields = fields.flatMap fun entry => entry.1 :: entry.2.names := by
  induction fields with
  | nil => rfl
  | cons field rest ih => rw [Value.fieldNames, ih, List.flatMap_cons]

theorem reads_valueWithin (depth : Nat) :
    Reads (valueWithin depth) fun value => AllNamed value.names := by
  induction depth with
  | zero => exact reads_leaf
  | succ depth ih =>
      intro text value rest read
      unfold valueWithin at read
      split at read
      · rename_i found leaf
        obtain rfl : found = (value, rest) := Option.some.inj read
        exact reads_leaf _ _ _ leaf
      · split at read
        · rename_i behind _
          obtain ⟨_, _, ⟨⟩⟩ := Option.bind_eq_some_iff.mp read
          rw [Value.names, itemNames_eq]
          exact allNamed_flatMap (ih.many behind)
        · rename_i behind _
          obtain ⟨_, _, ⟨⟩⟩ := Option.bind_eq_some_iff.mp read
          rw [Value.names, fieldNames_eq]
          exact allNamed_flatMap ((reads_namedValue ih).many behind)
        · cases read

theorem reads_value : Reads value fun value => AllNamed value.names :=
  fun _ => reads_valueWithin _ _

theorem reads_usage : Reads usage fun usage => AllNamed usage.names := by
  intro text result rest read
  obtain ⟨_, _, read⟩ := Option.bind_eq_some_iff.mp read
  obtain ⟨⟨directive, behind⟩, _, ⟨⟩⟩ := Option.bind_eq_some_iff.mp read
  exact allNamed_flatMap fun entry member => (List.forall_mem_cons.mp
    ((reads_enclosed (reads_namedValue reads_value)).optional_getD behind entry member)).2

theorem allNamed_optional {α : Type} {reader : Reader α} {names : α → List String}
    (reads : Reads reader fun result => AllNamed (names result)) (text : List Char) :
    AllNamed ((optional reader text).1.elim [] names) := by
  have found := reads.optional text
  cases result : (optional reader text).1 with
  | none => exact allNamed_nil
  | some result => exact found _ ‹_›

theorem reads_argument : Reads argument fun argument => AllNamed argument.names := by
  intro text result rest read
  obtain ⟨⟨name, behindName⟩, readName, read⟩ := Option.bind_eq_some_iff.mp read
  obtain ⟨_, _, read⟩ := Option.bind_eq_some_iff.mp read
  obtain ⟨⟨type, behindType⟩, _, ⟨⟩⟩ := Option.bind_eq_some_iff.mp read
  have default : Reads defaultValue fun value => AllNamed value.names := by
    intro text value rest read
    obtain ⟨_, _, read⟩ := Option.bind_eq_some_iff.mp read
    exact reads_value _ _ _ read
  exact allNamed_cons.mpr ⟨reads_name _ _ _ readName, allNamed_append.mpr
    ⟨allNamed_optional default behindType, allNamed_flatMap (reads_usage.many _)⟩⟩

theorem reads_arguments (text : List Char) :
    AllNamed ((arguments text).1.flatMap Argument.names) :=
  allNamed_flatMap ((reads_enclosed reads_argument).optional_getD text)

theorem reads_field : Reads field fun field => AllNamed field.names := by
  intro text result rest read
  obtain ⟨⟨name, behindName⟩, readName, read⟩ := Option.bind_eq_some_iff.mp read
  obtain ⟨_, _, read⟩ := Option.bind_eq_some_iff.mp read
  obtain ⟨⟨type, behindType⟩, _, ⟨⟩⟩ := Option.bind_eq_some_iff.mp read
  exact allNamed_cons.mpr ⟨reads_name _ _ _ readName, allNamed_append.mpr
    ⟨reads_arguments behindName, allNamed_flatMap (reads_usage.many behindType)⟩⟩

theorem reads_enumItem : Reads enumItem fun item => AllNamed item.names := by
  intro text result rest read
  obtain ⟨⟨name, behindName⟩, readName, ⟨⟩⟩ := Option.bind_eq_some_iff.mp read
  exact List.forall_mem_cons.mpr
    ⟨reads_enumName _ _ _ readName, allNamed_flatMap (reads_usage.many behindName)⟩

theorem reads_body (kind : TypeKind) (interfaces : List String) :
    Reads (body kind interfaces) fun body => AllNamed body.names := by
  cases kind with
  | object => exact (reads_enclosed reads_field).map fun _ => allNamed_flatMap
  | interface => exact (reads_enclosed reads_field).map fun _ => allNamed_flatMap
  | inputObject => exact (reads_enclosed reads_argument).map fun _ => allNamed_flatMap
  | enum => exact (reads_enclosed reads_enumItem).map fun _ => allNamed_flatMap
  | union =>
      intro text body rest read
      obtain ⟨_, _, ⟨⟩⟩ := Option.map_eq_some_iff.mp read
      exact allNamed_nil
  | scalar => exact fun _ _ _ read => nomatch read

theorem names_emptyBody (kind : TypeKind) (interfaces : List String) :
    (emptyBody kind interfaces).names = [] := by
  cases kind <;> rfl

theorem allNamed_optionalBody (kind : TypeKind) (interfaces : List String) (text : List Char) :
    AllNamed ((optional (body kind interfaces) text).1.getD (emptyBody kind interfaces)).names := by
  have found := (reads_body kind interfaces).optional text
  cases members : (optional (body kind interfaces) text).1 with
  | none =>
      rw [Option.getD_none, names_emptyBody]
      exact allNamed_nil
  | some members => exact found _ ‹_›

end Sdl

namespace Sdl.WrittenDefinition

def names : WrittenDefinition → List String
  | .schema _ usages _ => usages.flatMap DirectiveUsage.names
  | .type _ definition => definition.names
  | .directive definition _ => definition.names

end Sdl.WrittenDefinition

namespace Sdl

open Text

theorem reads_typeDefinition (kind : TypeKind) :
    Reads (typeDefinition kind) fun definition => AllNamed definition.names := by
  intro text result rest read
  obtain ⟨_, _, read⟩ := Option.bind_eq_some_iff.mp read
  obtain ⟨_, readName, ⟨⟩⟩ := Option.bind_eq_some_iff.mp read
  exact allNamed_cons.mpr ⟨reads_name _ _ _ readName, allNamed_append.mpr
    ⟨allNamed_flatMap (reads_usage.many _), allNamed_optionalBody kind _ _⟩⟩

theorem reads_typeExtension (kind : TypeKind) :
    Reads (typeExtension kind) fun definition => AllNamed definition.names := by
  intro text result rest read
  obtain ⟨_, _, read⟩ := Option.bind_eq_some_iff.mp read
  obtain ⟨_, _, read⟩ := Option.bind_eq_some_iff.mp read
  obtain ⟨⟨name, behindName⟩, readName, read⟩ := Option.bind_eq_some_iff.mp read
  have usages := reads_usage.many (implementing kind behindName).2
  dsimp only at read
  split at read
  · rename_i members _ readBody
    obtain ⟨⟩ := read
    exact allNamed_cons.mpr ⟨reads_name _ _ _ readName, allNamed_append.mpr
      ⟨allNamed_flatMap usages, reads_body _ _ _ _ _ readBody⟩⟩
  · split at read
    · obtain ⟨⟩ := read
      refine allNamed_cons.mpr ⟨reads_name _ _ _ readName, allNamed_append.mpr
        ⟨allNamed_flatMap usages, ?_⟩⟩
      rw [names_emptyBody]
      exact allNamed_nil
    · cases read

theorem reads_schemaDefinition :
    Reads schemaDefinition fun definition => AllNamed definition.names := by
  intro text result rest read
  obtain ⟨⟨_, behind⟩, _, read⟩ := Option.bind_eq_some_iff.mp read
  obtain ⟨_, _, ⟨⟩⟩ := Option.bind_eq_some_iff.mp read
  exact allNamed_flatMap (reads_usage.many behind)

theorem reads_schemaExtension :
    Reads schemaExtension fun definition => AllNamed definition.names := by
  intro text result rest read
  obtain ⟨_, _, read⟩ := Option.bind_eq_some_iff.mp read
  obtain ⟨⟨_, behind⟩, _, read⟩ := Option.bind_eq_some_iff.mp read
  have usages := allNamed_flatMap (reads_usage.many behind)
  dsimp only at read
  split at read
  · obtain ⟨⟩ := read
    exact usages
  · split at read
    · cases read
    · obtain ⟨⟩ := read
      exact usages

theorem reads_directiveDefinition :
    Reads directiveDefinition fun definition => AllNamed definition.names := by
  intro text result rest read
  obtain ⟨_, _, read⟩ := Option.bind_eq_some_iff.mp read
  obtain ⟨_, _, read⟩ := Option.bind_eq_some_iff.mp read
  obtain ⟨⟨_, behindName⟩, _, read⟩ := Option.bind_eq_some_iff.mp read
  obtain ⟨_, _, read⟩ := Option.bind_eq_some_iff.mp read
  obtain ⟨_, _, ⟨⟩⟩ := Option.bind_eq_some_iff.mp read
  exact reads_arguments behindName

theorem reads_definition : Reads definition fun definition => AllNamed definition.names :=
  reads_definition_of reads_schemaDefinition reads_schemaExtension reads_typeDefinition
    reads_typeExtension reads_directiveDefinition

end Sdl

end GraphqlReference
