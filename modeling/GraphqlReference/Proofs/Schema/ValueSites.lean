import GraphqlReference.Proofs.Schema.Extending
import GraphqlReference.Schema

namespace GraphqlReference

/-- A declared argument with its default, or a directive that is applied with what is supplied to
it. -/
inductive ValueSite where
  | argument (argument : Argument)
  | usage (usage : DirectiveUsage)

def Argument.sites (argument : Argument) : List ValueSite :=
  .argument argument :: argument.usages.map .usage

def Field.sites (field : Field) : List ValueSite :=
  field.usages.map .usage ++ field.arguments.flatMap Argument.sites

def EnumItem.sites (item : EnumItem) : List ValueSite :=
  item.usages.map .usage

def TypeBody.sites : TypeBody → List ValueSite
  | .object _ fields | .interface _ fields => fields.flatMap Field.sites
  | .inputObject fields => fields.flatMap Argument.sites
  | .enum items => items.flatMap EnumItem.sites
  | .union _ | .scalar => []

def TypeDefinition.sites (definition : TypeDefinition) : List ValueSite :=
  definition.usages.map .usage ++ definition.body.sites

def DirectiveDefinition.sites (definition : DirectiveDefinition) : List ValueSite :=
  definition.arguments.flatMap Argument.sites

def Schema.sites (schema : Schema) : List ValueSite :=
  schema.usages.map .usage ++ schema.types.flatMap TypeDefinition.sites ++
    schema.directives.flatMap DirectiveDefinition.sites

/-- Extending a body adds sites of the extension only. -/
theorem TypeBody.sites_extend (body more : TypeBody) :
    (body.extend more).sites ⊆ body.sites ++ more.sites := by
  cases body <;> cases more <;> simp [extend, sites]

theorem TypeDefinition.sites_extendWith (definition extension : TypeDefinition) :
    (definition.extendWith extension).sites ⊆ definition.sites ++ extension.sites := by
  intro site member
  have inBody := TypeBody.sites_extend definition.body extension.body (a := site)
  simp only [extendWith, sites, List.map_append, List.mem_append] at member inBody ⊢
  grind

end GraphqlReference
