import Mathlib.Data.List.Perm.Basic
import GraphqlReference.Proofs.Page.Comparing
import GraphqlReference.Proofs.Schema.Obtained
import GraphqlReference.Proofs.Schema.Similar
import GraphqlReference.Proofs.Text.ByteOrder

namespace GraphqlReference.Page

theorem directiveBefore_antisymm {first second : DirectiveDefinition}
    (before : directiveBefore first second = true) (behind : directiveBefore second first = true) :
    first.name = second.name :=
  String.le_antisymm (of_decide_eq_true before) (of_decide_eq_true behind)

theorem directiveBefore_trans (first second third : DirectiveDefinition)
    (before : directiveBefore first second = true) (behind : directiveBefore second third = true) :
    directiveBefore first third = true :=
  decide_eq_true (String.le_trans (of_decide_eq_true before) (of_decide_eq_true behind))

theorem directiveBefore_total (first second : DirectiveDefinition) :
    (directiveBefore first second || directiveBefore second first) = true := by
  rw [Bool.or_eq_true]
  exact (String.le_total first.name second.name).imp decide_eq_true decide_eq_true

theorem typeBefore_iff {first second : TypeDefinition} : typeBefore first second = true ↔
    kindRank first.kind < kindRank second.kind ∨
      (kindRank first.kind = kindRank second.kind ∧ first.name ≤ second.name) := by
  simp only [typeBefore, Bool.or_eq_true, Bool.and_eq_true, decide_eq_true_eq, beq_iff_eq]

theorem typeBefore_antisymm {first second : TypeDefinition}
    (before : typeBefore first second = true) (behind : typeBefore second first = true) :
    first.name = second.name := by
  rw [typeBefore_iff] at before behind
  rcases before with less | ⟨same, before⟩
  · omega
  · rcases behind with less | ⟨_, behind⟩
    · omega
    · exact String.le_antisymm before behind

theorem typeBefore_trans (first second third : TypeDefinition)
    (before : typeBefore first second = true) (behind : typeBefore second third = true) :
    typeBefore first third = true := by
  rw [typeBefore_iff] at before behind ⊢
  rcases before with less | ⟨same, before⟩
  · exact .inl (by omega)
  · rcases behind with less | ⟨same', behind⟩
    · exact .inl (by omega)
    · exact .inr ⟨by omega, String.le_trans before behind⟩

theorem typeBefore_total (first second : TypeDefinition) :
    (typeBefore first second || typeBefore second first) = true := by
  rw [Bool.or_eq_true, typeBefore_iff, typeBefore_iff]
  rcases Nat.lt_trichotomy (kindRank first.kind) (kindRank second.kind) with less | same | more
  · exact .inl (.inl less)
  · rcases String.le_total first.name second.name with before | behind
    · exact .inl (.inr ⟨same, before⟩)
    · exact .inr (.inr ⟨same.symm, behind⟩)
  · exact .inr (.inl more)

section

variable {schema schema' : Schema}

theorem declarations_similar (similar : schema.Similar schema') :
    declarations schema = declarations schema' := by
  have types : schema.types.mergeSort typeBefore = schema'.types.mergeSort typeBefore :=
    mergeSort_perm_eq TypeDefinition.name typeBefore_trans typeBefore_total typeBefore_antisymm
      similar.types similar.distinct.types
  have directives : schema.directives.mergeSort directiveBefore =
      schema'.directives.mergeSort directiveBefore :=
    mergeSort_perm_eq DirectiveDefinition.name directiveBefore_trans directiveBefore_total
      directiveBefore_antisymm similar.directives similar.distinct.directives
  funext includeBuiltIns
  unfold declarations
  rw [types, directives]

theorem anchors_similar (similar : schema.Similar schema') : anchors schema = anchors schema' := by
  funext includeBuiltIns
  unfold anchors
  rw [declarations_similar similar]

theorem fragments_similar (similar : schema.Similar schema') :
    fragments schema = fragments schema' := by
  refine fragments_exact .identity id ?_ fun includeBuiltIns => ?_
  · exact
      { description := similar.description
        roots := similar.roots
        usages := List.forall₂_eq_eq_eq ▸ similar.usages
        types := fun name => similar.type?_eq ▸ found_related .refl (schema.type? name)
        directives := fun name => similar.directive?_eq ▸ found_related .refl _
        supplied := suppliesAlike_of_eq fun _ _ used => used }
  · rw [declarations_similar similar]
    exact List.forall₂_same.mpr fun declaration _ => .refl declaration

theorem render_similar (similar : schema.Similar schema') : render schema = render schema' := by
  funext config
  unfold render
  rw [fragments_similar similar]

end

/-- The kinds of types in the order of a page. -/
def kinds : List TypeKind :=
  [.interface, .object, .union, .inputObject, .scalar, .enum]

/-- A type comes earlier than another one by its kind or, among those of its kind, by the bytes of
its name. -/
def Earlier (first second : TypeDefinition) : Prop :=
  kinds.idxOf first.kind < kinds.idxOf second.kind ∨
    (first.kind = second.kind ∧ Text.bytes first.name < Text.bytes second.name)

theorem kindRank_eq_idxOf (kind : TypeKind) : kindRank kind = kinds.idxOf kind := by
  cases kind <;> rfl

theorem kindRank_inj {kind kind' : TypeKind} (same : kindRank kind = kindRank kind') :
    kind = kind' := by
  cases kind <;> cases kind' <;> first | rfl | cases same

theorem bytes_lt_of_le {name name' : String} (before : name ≤ name') (different : name ≠ name') :
    Text.bytes name < Text.bytes name' :=
  Text.bytes_lt_iff.mpr (lt_of_le_of_ne before different)

theorem earlier_of_typeBefore {first second : TypeDefinition}
    (before : typeBefore first second = true) (different : first.name ≠ second.name) :
    Earlier first second := by
  rcases typeBefore_iff.mp before with less | ⟨same, behind⟩
  · rw [kindRank_eq_idxOf, kindRank_eq_idxOf] at less
    exact .inl less
  · exact .inr ⟨kindRank_inj same, bytes_lt_of_le behind different⟩

theorem pairwise_filter_mergeSort {α : Type} {name : α → String} {before : α → α → Bool}
    (trans : ∀ first second third, before first second = true → before second third = true →
      before first third = true)
    (total : ∀ first second, (before first second || before second first) = true)
    {items : List α} (distinct : (items.map name).Nodup) (keep : α → Bool) :
    ((items.mergeSort before).filter keep).Pairwise fun first second =>
      before first second = true ∧ name first ≠ name second := by
  have named : ((items.mergeSort before).map name).Nodup :=
    ((List.mergeSort_perm items before).map name).nodup_iff.mpr distinct
  have sorted := List.pairwise_mergeSort trans total items
  exact (sorted.and (List.pairwise_map.mp named)).filter keep

/-- The declarations of a page are the types and behind them the directives, without the built-in
ones if these are left out, and either are in their order. -/
theorem declarations_ordered {schema : Schema} (distinct : schema.IsDistinct)
    (includeBuiltIns : Bool) :
    ∃ (types : List TypeDefinition) (directives : List DirectiveDefinition),
      declarations schema includeBuiltIns =
        types.map Declaration.type ++ directives.map Declaration.directive ∧
      types.Perm (schema.types.filter fun definition =>
        includeBuiltIns || !definition.isBuiltIn) ∧
      types.Pairwise Earlier ∧
      directives.Perm (schema.directives.filter fun definition =>
        includeBuiltIns || !definition.isBuiltIn) ∧
      directives.Pairwise fun first second => Text.bytes first.name < Text.bytes second.name := by
  refine ⟨(schema.types.mergeSort typeBefore).filter fun definition =>
      includeBuiltIns || !definition.isBuiltIn,
    (schema.directives.mergeSort directiveBefore).filter fun definition =>
      includeBuiltIns || !definition.isBuiltIn, ?_, ?_, ?_, ?_, ?_⟩
  · unfold declarations
    rw [List.filter_append, List.filter_map, List.filter_map]
    rfl
  · exact (List.mergeSort_perm schema.types typeBefore).filter _
  · have sorted := pairwise_filter_mergeSort typeBefore_trans typeBefore_total distinct.types
      fun definition => includeBuiltIns || !definition.isBuiltIn
    exact sorted.imp fun both => earlier_of_typeBefore both.1 both.2
  · exact (List.mergeSort_perm schema.directives directiveBefore).filter _
  · have sorted := pairwise_filter_mergeSort directiveBefore_trans directiveBefore_total
      distinct.directives fun definition => includeBuiltIns || !definition.isBuiltIn
    exact sorted.imp fun both => bytes_lt_of_le (of_decide_eq_true both.1) both.2

end GraphqlReference.Page
