import Mathlib.Data.List.Nodup
import GraphqlReference.Proofs.Page.Layout
import GraphqlReference.Proofs.Schema.Obtained

namespace GraphqlReference.Page

section

variable {name name' : String}

theorem typeAnchor_toList (name : String) :
    (typeAnchor name).toList = "graphql-".toList ++ 't' :: ("ype-".toList ++ name.toList) := by
  have split : "graphql-type-".toList = "graphql-".toList ++ 't' :: "ype-".toList := by decide
  have whole : (typeAnchor name).toList = "graphql-type-".toList ++ name.toList :=
    String.toList_append
  rw [whole, split, List.append_assoc, List.cons_append]

theorem directiveAnchor_toList (name : String) :
    (directiveAnchor name).toList =
      "graphql-".toList ++ 'd' :: ("irective-".toList ++ name.toList) := by
  have split : "graphql-directive-".toList = "graphql-".toList ++ 'd' :: "irective-".toList := by
    decide
  have whole : (directiveAnchor name).toList = "graphql-directive-".toList ++ name.toList :=
    String.toList_append
  rw [whole, split, List.append_assoc, List.cons_append]

theorem schemaAnchor_toList :
    schemaAnchor.toList = "graphql-".toList ++ 's' :: "chema".toList := by
  decide

theorem typeAnchor_inj : typeAnchor name = typeAnchor name' ↔ name = name' := by
  refine ⟨fun same => ?_, congrArg typeAnchor⟩
  have texts := congrArg String.toList same
  rw [typeAnchor_toList, typeAnchor_toList, List.append_cancel_left_eq, List.cons.injEq,
    List.append_cancel_left_eq] at texts
  exact String.toList_inj.mp texts.2

theorem directiveAnchor_inj : directiveAnchor name = directiveAnchor name' ↔ name = name' := by
  refine ⟨fun same => ?_, congrArg directiveAnchor⟩
  have texts := congrArg String.toList same
  rw [directiveAnchor_toList, directiveAnchor_toList, List.append_cancel_left_eq, List.cons.injEq,
    List.append_cancel_left_eq] at texts
  exact String.toList_inj.mp texts.2

theorem typeAnchor_ne_directiveAnchor : typeAnchor name ≠ directiveAnchor name' := by
  intro same
  have texts := congrArg String.toList same
  rw [typeAnchor_toList, directiveAnchor_toList, List.append_cancel_left_eq] at texts
  exact absurd (List.cons.inj texts).1 (by decide)

theorem schemaAnchor_ne_typeAnchor : schemaAnchor ≠ typeAnchor name := by
  intro same
  have texts := congrArg String.toList same
  rw [schemaAnchor_toList, typeAnchor_toList, List.append_cancel_left_eq] at texts
  exact absurd (List.cons.inj texts).1 (by decide)

theorem schemaAnchor_ne_directiveAnchor : schemaAnchor ≠ directiveAnchor name := by
  intro same
  have texts := congrArg String.toList same
  rw [schemaAnchor_toList, directiveAnchor_toList, List.append_cancel_left_eq] at texts
  exact absurd (List.cons.inj texts).1 (by decide)

end

section

variable {schema : Schema} {includeBuiltIns : Bool}

theorem mem_declarations {declaration : Declaration} :
    declaration ∈ declarations schema includeBuiltIns ↔
      ((∃ definition ∈ schema.types, declaration = .type definition) ∨
        ∃ definition ∈ schema.directives, declaration = .directive definition) ∧
      (includeBuiltIns || !declaration.isBuiltIn) = true := by
  simp only [declarations, List.mem_filter, List.mem_append, List.mem_map, List.mem_mergeSort,
    eq_comm]

theorem nodup_anchors (distinct : schema.IsDistinct) : (anchors schema includeBuiltIns).Nodup := by
  have types : ((schema.types.mergeSort typeBefore).map TypeDefinition.name).Nodup :=
    ((List.mergeSort_perm schema.types typeBefore).map _).nodup_iff.mpr distinct.types
  have directives :
      ((schema.directives.mergeSort directiveBefore).map DirectiveDefinition.name).Nodup :=
    ((List.mergeSort_perm schema.directives directiveBefore).map _).nodup_iff.mpr
      distinct.directives
  have typeAnchors := List.Nodup.map (fun _ _ => typeAnchor_inj.mp) types
  have directiveAnchors := List.Nodup.map (fun _ _ => directiveAnchor_inj.mp) directives
  rw [List.map_map] at typeAnchors directiveAnchors
  have all := List.nodup_append.mpr ⟨typeAnchors, directiveAnchors, by
    intro anchor member anchor' member'
    obtain ⟨_, _, rfl⟩ := List.mem_map.mp member
    obtain ⟨_, _, rfl⟩ := List.mem_map.mp member'
    exact typeAnchor_ne_directiveAnchor⟩
  refine List.nodup_cons.mpr ⟨?_, ?_⟩
  · intro member
    obtain ⟨declaration, _, same⟩ := List.mem_map.mp member
    cases declaration with
    | type => exact schemaAnchor_ne_typeAnchor same.symm
    | directive => exact schemaAnchor_ne_directiveAnchor same.symm
  · have kept := (List.filter_sublist
      (l := (schema.types.mergeSort typeBefore).map Declaration.type ++
        (schema.directives.mergeSort directiveBefore).map Declaration.directive)
      (p := fun declaration => includeBuiltIns || !declaration.isBuiltIn)).map Declaration.anchor
    rw [List.map_append, List.map_map, List.map_map] at kept
    exact all.sublist kept

theorem IsLinked.mem_anchors {anchor : String} (linked : IsLinked schema anchor) :
    anchor ∈ anchors schema includeBuiltIns := by
  refine List.mem_cons_of_mem _ (List.mem_map.mpr ?_)
  cases linked with
  | @type definition member user =>
      exact ⟨.type definition, mem_declarations.mpr
        ⟨.inl ⟨definition, member, rfl⟩, by simp [Declaration.isBuiltIn, user]⟩, rfl⟩
  | @directive definition member user =>
      exact ⟨.directive definition, mem_declarations.mpr
        ⟨.inr ⟨definition, member, rfl⟩, by simp [Declaration.isBuiltIn, user]⟩, rfl⟩

/-- No reference leads to a built-in declaration. -/
theorem IsLinked.ne_builtIn (distinct : schema.IsDistinct) {anchor : String}
    (linked : IsLinked schema anchor) {declaration : Declaration}
    (member : declaration ∈ declarations schema includeBuiltIns)
    (builtIn : declaration.isBuiltIn = true) : anchor ≠ declaration.anchor := by
  intro same
  rcases (mem_declarations.mp member).1 with ⟨other, declared, rfl⟩ | ⟨other, declared, rfl⟩
  · cases linked with
    | type member user =>
        obtain rfl := List.inj_on_of_nodup_map distinct.types member declared
          (typeAnchor_inj.mp same)
        exact Bool.false_ne_true (user.symm.trans builtIn)
    | directive => exact typeAnchor_ne_directiveAnchor same.symm
  · cases linked with
    | type => exact typeAnchor_ne_directiveAnchor same
    | directive member user =>
        obtain rfl := List.inj_on_of_nodup_map distinct.directives member declared
          (directiveAnchor_inj.mp same)
        exact Bool.false_ne_true (user.symm.trans builtIn)

end

end GraphqlReference.Page
