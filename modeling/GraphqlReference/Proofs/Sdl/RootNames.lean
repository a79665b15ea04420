import GraphqlReference.Proofs.Sdl.ReadNames
import GraphqlReference.Proofs.Sdl.Roots

namespace GraphqlReference.Sdl

open Text

def IsWord (name : String) : Prop :=
  ∀ c ∈ name.toList, isNamePart c = true

theorem isNamePart_of_isNameStart {c : Char} (start : isNameStart c = true) :
    isNamePart c = true := by
  rcases Bool.or_eq_true_iff.mp start with letter | underscore
  · simp [isNamePart, Char.isAlphanum, letter]
  · simp [isNamePart, underscore]

theorem isWord_name : Reads name IsWord := by
  intro text result rest read
  unfold name at read
  cases skipped : skip text with
  | nil =>
      rw [skipped] at read
      cases read
  | cons c behind =>
      rw [skipped] at read
      simp only [nameHere] at read
      split at read
      · rename_i start
        obtain ⟨⟩ := read
        intro part member
        rw [String.toList_ofList] at member
        rcases List.mem_cons.mp member with rfl | later
        · exact isNamePart_of_isNameStart start
        · exact List.all_eq_true.mp List.all_takeWhile part later
      · cases read

theorem isWord_roots : Reads roots fun named => ∀ root ∈ named, IsWord root.2 := by
  refine reads_enclosed fun text result rest read => ?_
  obtain ⟨_, _, read⟩ := Option.bind_eq_some_iff.mp read
  obtain ⟨_, _, read⟩ := Option.bind_eq_some_iff.mp read
  obtain ⟨_, readName, ⟨⟩⟩ := Option.bind_eq_some_iff.mp read
  exact isWord_name _ _ _ readName

/-- The roots that a definition names are words. -/
def WrittenDefinition.HasWords : WrittenDefinition → Prop
  | .schema _ _ roots => ∀ root ∈ roots, IsWord root.2
  | .type .. | .directive .. => True

theorem hasWords_definition : Reads definition WrittenDefinition.HasWords := by
  refine reads_definition_of ?_ ?_ (fun kind => ?_) (fun kind => ?_) ?_
  case refine_1 =>
    intro text result rest read
    obtain ⟨_, _, read⟩ := Option.bind_eq_some_iff.mp read
    obtain ⟨_, readRoots, ⟨⟩⟩ := Option.bind_eq_some_iff.mp read
    exact isWord_roots _ _ _ readRoots
  case refine_2 =>
    intro text result rest read
    obtain ⟨_, _, read⟩ := Option.bind_eq_some_iff.mp read
    obtain ⟨_, _, read⟩ := Option.bind_eq_some_iff.mp read
    dsimp only at read
    split at read
    · rename_i readRoots
      obtain ⟨⟩ := read
      exact isWord_roots _ _ _ readRoots
    · split at read
      · cases read
      · obtain ⟨⟩ := read
        exact fun _ member => absurd member List.not_mem_nil
  case refine_3 =>
    intro text result rest read
    obtain ⟨_, _, rfl, _⟩ := type_typeDefinition kind text result rest read
    exact trivial
  case refine_4 =>
    intro text result rest read
    obtain ⟨_, _, rfl, _⟩ := type_typeExtension kind text result rest read
    exact trivial
  case refine_5 =>
    intro text result rest read
    obtain ⟨_, _, read⟩ := Option.bind_eq_some_iff.mp read
    obtain ⟨_, _, read⟩ := Option.bind_eq_some_iff.mp read
    obtain ⟨_, _, read⟩ := Option.bind_eq_some_iff.mp read
    obtain ⟨_, _, read⟩ := Option.bind_eq_some_iff.mp read
    obtain ⟨_, _, ⟨⟩⟩ := Option.bind_eq_some_iff.mp read
    exact trivial

/-- The roots that have been named are words. -/
def AreWords (roots : Roots) : Prop :=
  ∀ operation name, roots.get operation = some name → IsWord name

theorem areWords_empty : AreWords .empty := by
  intro operation name named
  cases operation <;> cases named

theorem areWords_set {roots : Roots} (words : AreWords roots) {operation : Operation}
    {name : String} (word : IsWord name) : AreWords (roots.set operation name) := by
  intro other found same
  have kept := words other found
  cases operation <;> cases other <;> simp_all [Roots.set, Roots.get]

theorem areWords_collectRoots {named : List (Operation × String)} {roots collected : Roots}
    (words : ∀ root ∈ named, IsWord root.2) (known : AreWords roots)
    (made : collectRoots roots named = .ok collected) : AreWords collected := by
  induction named generalizing roots with
  | nil =>
      obtain ⟨⟩ := made
      exact known
  | cons first rest ih =>
      obtain ⟨here, later⟩ := List.forall_mem_cons.mp words
      unfold collectRoots at made
      split at made
      · cases made
      · exact ih later (areWords_set known here) made

theorem areWords_resolve {source : List Char} {written : WrittenDefinition}
    {definition : Definition} (words : written.HasWords)
    (resolved : written.resolve source = .ok definition) :
    ∀ block ∈ definition.block?, AreWords block.roots := by
  intro block member
  cases written with
  | schema extending usages roots =>
      obtain ⟨_, made, _, resolvedBlock, rfl⟩ := resolve_schema_eq_ok.mp resolved
      obtain rfl : made = block := by simpa using member
      obtain ⟨collected, gathered, built⟩ := bind_eq_ok.mp resolvedBlock
      obtain rfl : collected = made.roots := by
        split at built
        · cases built
        · obtain ⟨⟩ := built
          rfl
      exact areWords_collectRoots words areWords_empty gathered
  | type extending written =>
      obtain ⟨_, _, rfl⟩ := resolve_type_eq_ok.mp resolved
      cases extending <;> cases member
  | directive written places =>
      obtain ⟨_, _, rfl⟩ := resolve_directive_eq_ok.mp resolved
      cases member

theorem isWord_conventionalRoot (operation : Operation) : IsWord operation.conventionalRoot := by
  have parts : operation.conventionalRoot.toList.all isNamePart = true := by
    cases operation <;> decide
  exact List.all_eq_true.mp parts

theorem isWord_root {source : String} {schema : Schema} (parsed : parse source = .ok schema)
    {operation : Operation} {root : String} (named : schema.root? operation = some root) :
    IsWord root := by
  obtain ⟨definitions, read, loaded⟩ := bind_eq_ok.mp parsed
  obtain ⟨builder, collected, built⟩ := bind_eq_ok.mp loaded
  have words : ∀ definition ∈ definitions, ∀ block ∈ definition.block?, AreWords block.roots :=
    forall_readDocument hasWords_definition areWords_resolve read
  rw [root?_build built, (knowsRoots_collect collected).root?] at named
  unfold rootUnder at named
  split at named
  · rename_i found
    obtain ⟨⟩ := named
    obtain ⟨block, member, here⟩ := List.exists_of_findSome?_eq_some found
    obtain ⟨definition, inside, isBlock⟩ :=
      List.mem_filterMap.mp (List.mem_reverse.mp member)
    exact words definition inside block isBlock operation root here
  · split at named
    · cases named
    · split at named
      · obtain ⟨⟩ := named
        exact isWord_conventionalRoot operation
      · cases named

end GraphqlReference.Sdl
