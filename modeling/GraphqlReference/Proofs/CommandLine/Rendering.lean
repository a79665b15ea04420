import GraphqlReference.CommandLine.Run
import GraphqlReference.Proofs.CommandLine.Writing
import GraphqlReference.Proofs.Page.Layout

namespace GraphqlReference.CommandLine

/-!
What the program does with a tree of files when it is asked for a document: all of it, or nothing.
Until there is a document the tree is only read; then one file is written, or none.
-/

/-- A tree of files with somebody there to view a file. -/
def FileSystem.viewed (directory : Place) (viewer : String → Except FileError Unit) :
    FileSystem (StateM FileTree) :=
  { FileSystem.ofTree directory with view := fun path => return viewer path }

section

variable (directory : Place) (tree : FileTree)

/-- The configuration that is found: in the given file, or in the file of the usual name beside the
schema, or the default one if neither is there. -/
inductive IsConfigured (options : RenderOptions) : Config → Prop
  | given {path source : String} {config : Config} : options.config = some path →
      tree.read directory path = .ok source → Config.decode? source = some config →
      IsConfigured options config
  | found {source : String} {config : Config} : options.config = none →
      tree.isFile directory (inDirectory (directoryOf options.schema) configFileName) = true →
      tree.read directory (inDirectory (directoryOf options.schema) configFileName) = .ok source →
      Config.decode? source = some config → IsConfigured options config
  | default : options.config = none →
      tree.isFile directory (inDirectory (directoryOf options.schema) configFileName) = false →
      IsConfigured options .default

/-- The document that options ask for. It is a fragment if the options or the configuration say so,
and its title is that of the options, or else of the configuration. -/
inductive IsDocument (options : RenderOptions) : String → Prop
  | intro {source : String} {schema : Schema} {config : Config} {document : List Char} :
      tree.read directory options.schema = .ok source → Sdl.parse source = .ok schema →
      IsConfigured directory tree options config →
      Page.render schema
        { config with
          standalone := config.standalone && !options.fragment
          title := options.title.getD config.title } = .ok document →
      IsDocument options (String.ofList document)

end

/-- An action leaves the tree as it is and has exactly the results with a property. -/
def Yields {ε α : Type} (tree : FileTree) (action : ExceptT ε (StateM FileTree) α)
    (property : α → Prop) : Prop :=
  ∃ result, action.run.run tree = (result, tree) ∧ ∀ value, result = .ok value ↔ property value

section

variable {ε ε' α β : Type} {tree : FileTree} {property : α → Prop}

theorem yields_pure {value : α} (only : ∀ other, property other ↔ other = value) :
    Yields tree (pure value : ExceptT ε (StateM FileTree) α) property :=
  ⟨.ok value, rfl, fun other => by rw [only, Except.ok.injEq, eq_comm]⟩

theorem yields_throw {fault : ε} (none : ∀ value, ¬ property value) :
    Yields tree (throw fault : ExceptT ε (StateM FileTree) α) property :=
  ⟨.error fault, rfl, fun value => iff_of_false nofun (none value)⟩

/-- A look at the tree goes first. -/
theorem Yields.after {action : StateM FileTree α} {value : α}
    {next : α → ExceptT ε (StateM FileTree) β} {outcome : β → Prop}
    (ran : action.run tree = (value, tree)) (rest : Yields tree (next value) outcome) :
    Yields tree ((liftM action : ExceptT ε (StateM FileTree) α) >>= next) outcome := by
  obtain ⟨final, ran', finals⟩ := rest
  refine ⟨final, ?_, finals⟩
  change ((Except.ok <$> action) >>= ExceptT.bindCont next).run tree = _
  rw [StateT.run_bind, StateT.run_map, ran]
  exact ran'

theorem Yields.bind {action : ExceptT ε (StateM FileTree) α}
    {next : α → ExceptT ε (StateM FileTree) β} {outcome : α → β → Prop}
    (first : Yields tree action property)
    (rest : ∀ value, property value → Yields tree (next value) (outcome value)) :
    Yields tree (action >>= next) fun result => ∃ value, property value ∧ outcome value result := by
  obtain ⟨result, ran, results⟩ := first
  cases result with
  | error fault =>
      refine ⟨.error fault, ?_, fun value => ?_⟩
      · rw [ExceptT.run_bind, StateT.run_bind, ran]
        rfl
      · simp [← results]
  | ok value =>
      obtain ⟨final, ran', finals⟩ := rest value ((results value).mp rfl)
      refine ⟨final, ?_, fun other => ?_⟩
      · rw [ExceptT.run_bind, StateT.run_bind, ran]
        exact ran'
      · simp [← results, finals]

theorem Yields.adapt {action : ExceptT ε (StateM FileTree) α} (yields : Yields tree action property)
    (change : ε → ε') : Yields tree (ExceptT.adapt change action) property := by
  obtain ⟨result, ran, results⟩ := yields
  refine ⟨result.mapError change, ?_, fun value => ?_⟩
  · change (Except.mapError change <$> action.run).run tree = _
    rw [StateT.run_map, ran]
    rfl
  · rw [← results]
    cases result <;> simp [Except.mapError]

theorem Yields.congr {action : ExceptT ε (StateM FileTree) α} {same : α → Prop}
    (yields : Yields tree action property) (equivalent : ∀ value, property value ↔ same value) :
    Yields tree action same := by
  obtain ⟨result, ran, results⟩ := yields
  exact ⟨result, ran, fun value => (results value).trans (equivalent value)⟩

end

section

variable {ε α : Type} {directory : Place} {viewer : String → Except FileError Unit}
  {tree : FileTree}

theorem yields_read {path : String} {property : String → α → Prop}
    {next : Except FileError String → ExceptT ε (StateM FileTree) α}
    (unreadable : ∀ problem, Yields tree (next (.error problem)) fun _ => False)
    (readable : ∀ source, Yields tree (next (.ok source)) (property source)) :
    Yields tree (liftM ((FileSystem.viewed directory viewer).read path) >>= next) fun value =>
      ∃ source, tree.read directory path = .ok source ∧ property source value := by
  have ran : ((FileSystem.viewed directory viewer).read path).run tree =
      (tree.read directory path, tree) := rfl
  refine Yields.after ran ?_
  cases tree.read directory path with
  | error problem => exact (unreadable problem).congr fun value => by simp
  | ok source => exact (readable source).congr fun value => by simp

theorem yields_loadSchema (path : String) :
    Yields tree (loadSchema (.viewed directory viewer) path) fun schema =>
      ∃ source, tree.read directory path = .ok source ∧ Sdl.parse source = .ok schema := by
  refine yields_read (fun problem => yields_throw fun _ => id) fun source => ?_
  dsimp only
  cases Sdl.parse source with
  | error fault => exact yields_throw fun _ => nofun
  | ok schema => exact yields_pure fun other => by simp [eq_comm]

theorem yields_readConfig (path : String) :
    Yields tree (readConfig (.viewed directory viewer) path) fun config =>
      ∃ source, tree.read directory path = .ok source ∧ Config.decode? source = some config := by
  refine yields_read (fun problem => yields_throw fun _ => id) fun source => ?_
  dsimp only
  cases Config.decode? source with
  | none => exact yields_throw fun _ => nofun
  | some config => exact yields_pure fun other => by simp [eq_comm]

theorem yields_loadConfig (options : RenderOptions) :
    Yields tree (loadConfig (.viewed directory viewer) options.config options.schema)
      (IsConfigured directory tree options) := by
  cases given : options.config with
  | some path =>
      refine ((yields_readConfig path).adapt _).congr fun config => ⟨?_, ?_⟩
      · rintro ⟨source, read, decoded⟩
        exact .given given read decoded
      · rintro (⟨same, read, decoded⟩ | ⟨none⟩ | ⟨none⟩)
        · obtain rfl := Option.some.inj (given.symm.trans same)
          exact ⟨_, read, decoded⟩
        · cases given.symm.trans none
        · cases given.symm.trans none
  | none =>
      have ran : ((FileSystem.viewed directory viewer).isFile
          (inDirectory (directoryOf options.schema) configFileName)).run tree =
          (tree.isFile directory (inDirectory (directoryOf options.schema) configFileName), tree) :=
        rfl
      refine Yields.after ran ?_
      cases there : tree.isFile directory
          (inDirectory (directoryOf options.schema) configFileName) with
      | true =>
          refine ((yields_readConfig _).adapt _).congr fun config => ⟨?_, ?_⟩
          · rintro ⟨source, read, decoded⟩
            exact .found given there read decoded
          · rintro (⟨some⟩ | ⟨_, _, read, decoded⟩ | ⟨_, absent⟩)
            · cases given.symm.trans some
            · exact ⟨_, read, decoded⟩
            · cases there.symm.trans absent
      | false =>
          refine yields_pure fun config => ⟨?_, ?_⟩
          · rintro (⟨some⟩ | ⟨_, found⟩ | _)
            · cases given.symm.trans some
            · cases there.symm.trans found
            · rfl
          · rintro rfl
            exact .default given there

theorem yields_makeDocument (options : RenderOptions) :
    Yields tree (makeDocument (.viewed directory viewer) options)
      (IsDocument directory tree options) := by
  have made : Yields tree (makeDocument (.viewed directory viewer) options) fun document =>
      ∃ schema, (∃ source, tree.read directory options.schema = .ok source ∧
        Sdl.parse source = .ok schema) ∧ ∃ config, IsConfigured directory tree options config ∧
          ∃ text, Page.render schema (options.adjust config) = .ok text ∧
            document = String.ofList text := by
    refine (yields_loadSchema options.schema).bind fun schema _ =>
      (yields_loadConfig options).bind fun config _ => ?_
    cases Page.render schema (options.adjust config) with
    | error fault => exact yields_throw fun document => by simp
    | ok text => exact yields_pure fun document => by simp
  refine made.congr fun document => ⟨?_, ?_⟩
  · rintro ⟨schema, ⟨source, read, parsed⟩, config, configured, text, rendered, rfl⟩
    exact .intro read parsed configured rendered
  · rintro ⟨read, parsed, configured, rendered⟩
    exact ⟨_, ⟨_, read, parsed⟩, _, configured, _, rendered, rfl⟩

end

section

variable {directory : Place} {viewer : String → Except FileError Unit} {tree after : FileTree}
  {options : RenderOptions} {path document : String}

theorem publish_unwritten (view : Bool) {problem : FileError}
    (failed : tree.write directory path document = .error problem) :
    (publish (.viewed directory viewer) view path document).run tree =
      (⟨"", some (.unwritten path problem)⟩, tree) := by
  have ran : ((FileSystem.viewed directory viewer).write path document).run tree =
      (.error problem, tree) := by
    simp only [FileSystem.viewed, FileSystem.ofTree, StateT.run_bind, StateT.run_get, pure_bind,
      failed]
    rfl
  rw [publish, StateT.run_bind, ran]
  rfl

theorem publish_written (view : Bool)
    (written : tree.write directory path document = .ok after) :
    ∃ failure, (publish (.viewed directory viewer) view path document).run tree =
        (⟨s!"Generated {path}\n", failure⟩, after) ∧
      (failure = none ↔ (view = true → viewer path = .ok ())) := by
  have ran : ((FileSystem.viewed directory viewer).write path document).run tree =
      (.ok (), after) := by
    simp only [FileSystem.viewed, FileSystem.ofTree, StateT.run_bind, StateT.run_get, pure_bind,
      written]
    rfl
  rw [publish, StateT.run_bind, ran]
  cases view with
  | false => exact ⟨none, rfl, by simp⟩
  | true =>
      have seen : ((FileSystem.viewed directory viewer).view path).run after =
          (viewer path, after) := rfl
      change ∃ failure, ((FileSystem.viewed directory viewer).view path >>= _).run after = _ ∧ _
      rw [StateT.run_bind, seen]
      cases viewer path with
      | error problem => exact ⟨some (.notViewed problem), rfl, by simp⟩
      | ok => exact ⟨none, rfl, by simp⟩

/-- Nothing is written if there is no place for a file. -/
theorem publish_nowhere (view : Bool)
    (directories : ∀ place, tree.locateFile directory path = .ok place →
      tree.entry? place = some .directory) :
    ∃ failure, (publish (.viewed directory viewer) view path document).run tree =
      (⟨"", some failure⟩, tree) := by
  cases written : tree.write directory path document with
  | error problem => exact ⟨_, publish_unwritten view written⟩
  | ok left =>
      obtain ⟨place, located, file, _⟩ := FileTree.write_eq_ok.mp written
      exact absurd (directories place located) file

theorem publish_at (view : Bool) {place : Place}
    (located : tree.locateFile directory path = .ok place)
    (file : tree.entry? place ≠ some .directory) :
    ∃ failure, (publish (.viewed directory viewer) view path document).run tree =
        (⟨s!"Generated {path}\n", failure⟩, tree.put place (.text document)) ∧
      (failure = none ↔ (view = true → viewer path = .ok ())) :=
  publish_written view (FileTree.write_eq_ok.mpr ⟨place, located, file, rfl⟩)

theorem runRender_of_isEmpty (none : ∀ document, ¬ IsDocument directory tree options document) :
    ∃ failure, (runRender (.viewed directory viewer) options).run tree =
      (⟨"", some failure⟩, tree) := by
  obtain ⟨result, made, results⟩ :
    Yields tree (makeDocument (.viewed directory viewer) options) _ := yields_makeDocument options
  cases result with
  | ok document => exact absurd ((results document).mp rfl) (none document)
  | error failure =>
      refine ⟨failure, ?_⟩
      rw [runRender, StateT.run_bind, made]
      rfl

theorem runRender_of_isDocument (isDocument : IsDocument directory tree options document) :
    (runRender (.viewed directory viewer) options).run tree =
      match options.outputPath? with
      | none => (.success document, tree)
      | some path => (publish (.viewed directory viewer) options.view path document).run tree := by
  obtain ⟨result, made, results⟩ :
    Yields tree (makeDocument (.viewed directory viewer) options) _ := yields_makeDocument options
  obtain rfl := (results document).mpr isDocument
  rw [runRender, StateT.run_bind, made]
  cases options.outputPath? <;> rfl

theorem outputPath?_eq : options.outputPath? =
    if options.output = some "-" then none
    else some (options.output.getD (withExtension options.schema "html")) := by
  unfold RenderOptions.outputPath?
  cases options.output with
  | none => rfl
  | some path => by_cases hyphen : path = "-" <;> simp [hyphen]

theorem run_answer {arguments : List String}
    (parsed : Invocation.ofArguments? arguments = some (.render options))
    {outcome : Outcome}
    (ran : (runRender (.viewed directory viewer) options).run tree = (outcome, after)) :
    (answer (.viewed directory viewer) arguments).run tree = (outcome.answer, after) := by
  rw [answer, parsed]
  change (runRender (.viewed directory viewer) options >>= _).run tree = _
  rw [StateT.run_bind, ran]
  rfl

/-- The program fails without a word on its output. -/
structure Answer.FailsSilently (answered : Answer) : Prop where
  output : answered.output = ""
  report : answered.report.isSome
  code : answered.code = 1

theorem failsSilently_answer (failure : Failure) :
    (Outcome.answer ⟨"", some failure⟩).FailsSilently :=
  ⟨rfl, rfl, rfl⟩

theorem output_answer (outcome : Outcome) : outcome.answer.output = outcome.output := by
  unfold Outcome.answer
  split <;> rfl

theorem code_answer (outcome : Outcome) : outcome.answer.code = 0 ↔ outcome.failure = none := by
  unfold Outcome.answer
  split <;> simp_all

/-- A run for a document does all or nothing. Without a document it fails, and no file is touched.
A document goes to the output if a single hyphen is given for the file, and no file is touched.
Otherwise it is written to the given file, or to that of the schema with another extension: then it
can be read there, no other file is touched, and one line of output tells the file, whether or not
it can be viewed. -/
theorem answer_render (directory : Place) (viewer : String → Except FileError Unit)
    (tree after : FileTree) (arguments : List String) (options : RenderOptions) (answered : Answer)
    (parsed : Invocation.ofArguments? arguments = some (.render options))
    (ran : (answer (.viewed directory viewer) arguments).run tree = (answered, after)) :
    ((∀ document, ¬ IsDocument directory tree options document) →
      after = tree ∧ answered.FailsSilently) ∧
    ∀ document, IsDocument directory tree options document →
      (options.output = some "-" → after = tree ∧ answered = ⟨document, none, 0⟩) ∧
      (options.output ≠ some "-" → ∀ path,
        path = options.output.getD (withExtension options.schema "html") →
        ((∀ place, tree.locateFile directory path = .ok place →
          tree.entry? place = some .directory) → after = tree ∧ answered.FailsSilently) ∧
        ∀ place, tree.locateFile directory path = .ok place →
          tree.entry? place ≠ some .directory →
          tree.DiffersAt after place document ∧ after.read directory path = .ok document ∧
            answered.output = s!"Generated {path}\n" ∧
            (answered.code = 0 ↔ (options.view = true → viewer path = .ok ()))) := by
  have answers {outcome : Outcome} {left : FileTree}
      (rendered : (runRender (.viewed directory viewer) options).run tree = (outcome, left)) :
      answered = outcome.answer ∧ after = left :=
    Prod.mk.inj (ran.symm.trans (run_answer parsed rendered))
  constructor
  · intro none
    obtain ⟨failure, rendered⟩ := runRender_of_isEmpty none
    obtain ⟨rfl, rfl⟩ := answers rendered
    exact ⟨rfl, failsSilently_answer failure⟩
  · intro document isDocument
    have rendered : (runRender (.viewed directory viewer) options).run tree = _ :=
      runRender_of_isDocument isDocument
    rw [outputPath?_eq] at rendered
    constructor
    · intro hyphen
      rw [if_pos hyphen] at rendered
      obtain ⟨rfl, rfl⟩ := answers rendered
      exact ⟨rfl, rfl⟩
    · rintro noHyphen path rfl
      rw [if_neg noHyphen] at rendered
      constructor
      · intro directories
        obtain ⟨failure, published⟩ := publish_nowhere options.view directories
        obtain ⟨rfl, rfl⟩ := answers (rendered.trans published)
        exact ⟨rfl, failsSilently_answer failure⟩
      · intro place located file
        obtain ⟨failure, published, shown⟩ := publish_at options.view located file
        obtain ⟨rfl, rfl⟩ := answers (rendered.trans published)
        exact ⟨FileTree.differsAt_put file, FileTree.read_put located file, output_answer _,
          (code_answer _).trans shown⟩

end

/-- A schema and a configuration in one directory. -/
def sampleTree : FileTree :=
  [(["api"], .directory), (["api", "schema.graphql"], .text "type Query"),
    (["api", "schemadoc.toml"], .text "standalone = false")]

def sampleOptions : RenderOptions where
  schema := "api/schema.graphql"
  output := none
  config := none
  fragment := false
  title := some "API"
  view := true

/-- What the options and the file beside the schema leave of the default configuration. -/
def sampleConfig : Config where
  title := "API"
  standalone := false
  stylesheets := []
  includeBuiltIns := false
  navigation := .default

theorem exists_isDocument_sample : ∃ document,
    Page.render Page.querySchema sampleConfig = .ok document ∧
      IsDocument [] sampleTree sampleOptions (String.ofList document) := by
  obtain ⟨document, rendered⟩ := Page.exists_render_querySchema sampleConfig
  have configured : IsConfigured [] sampleTree sampleOptions
      { Config.default with standalone := false } :=
    .found rfl (by decide +kernel) (by decide +kernel : _ = Except.ok "standalone = false") rfl
  exact ⟨document, rendered,
    .intro (by decide +kernel) Page.parse_querySchema configured rendered⟩

def sampleArguments : List String :=
  ["render", "api/schema.graphql", "--title", "API", "--open"]

theorem answer_render_sample : ∃ document after answered,
    Page.render Page.querySchema sampleConfig = .ok document ∧
    IsDocument [] sampleTree sampleOptions (String.ofList document) ∧
    (answer (.viewed [] fun _ => .ok ()) sampleArguments).run sampleTree = (answered, after) ∧
    sampleTree.DiffersAt after ["api", "schema.html"] (String.ofList document) ∧
    after.read [] "api/schema.html" = .ok (String.ofList document) ∧
    answered.output = "Generated api/schema.html\n" ∧ answered.code = 0 := by
  obtain ⟨document, rendered, isDocument⟩ := exists_isDocument_sample
  obtain ⟨answered, after, ran⟩ : ∃ answered after,
      (answer (.viewed [] fun _ => .ok ()) sampleArguments).run sampleTree = (answered, after) :=
    ⟨_, _, rfl⟩
  obtain ⟨-, whole⟩ := answer_render [] (fun _ => .ok ()) sampleTree after sampleArguments
    sampleOptions answered rfl ran
  obtain ⟨differs, content, line, code⟩ :=
    ((whole (String.ofList document) isDocument).2 nofun "api/schema.html" (by decide +kernel)).2
      ["api", "schema.html"] (by decide +kernel) (by decide +kernel)
  exact ⟨document, after, answered, rendered, isDocument, ran, differs, content, line,
    code.mpr fun _ => rfl⟩

end GraphqlReference.CommandLine
