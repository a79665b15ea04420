import GraphqlReference.Proofs.Page.Walking

namespace GraphqlReference.Page

/-!
Lists of interfaces behind one another. What the first list has brought is closed, so the walk along
the second one passes it by and lists the rest in the order in which it would be listed alone.
-/

variable {schema : Schema} {visits rest : List Visit} {seen seen' names : List String}
  {name : String} {definition : TypeDefinition}

theorem walk_known (known : name ∈ seen) :
    walk schema (.enter name :: rest) seen = walk schema rest seen := by
  rw [walk, if_pos (List.contains_iff_mem.mpr known)]

theorem walk_unknown (new : name ∉ seen) (absent : schema.type? name = none) :
    walk schema (.enter name :: rest) seen = .error (.unknownType name) := by
  rw [walk, if_neg (mt List.contains_iff_mem.mp new)]
  split
  · rfl
  · rename_i found
    rw [absent] at found
    cases found

theorem walk_new (new : name ∉ seen) (found : schema.type? name = some definition) :
    walk schema (.enter name :: rest) seen =
      walk schema (definition.interfaces.map .enter ++ .leave name :: rest) (name :: seen) := by
  rw [walk, if_neg (mt List.contains_iff_mem.mp new)]
  split
  · rename_i absent
    rw [absent] at found
    cases found
  · rename_i found'
    rw [Option.some.inj (found'.symm.trans found)]

/-- It does not matter in which order names have been seen. -/
theorem walk_seen_congr (same : ∀ name, name ∈ seen ↔ name ∈ seen') :
    walk schema visits seen = walk schema visits seen' := by
  fun_induction walk schema visits seen generalizing seen' with
  | case1 seen => rw [walk]
  | case2 name rest seen ih => rw [walk, ih same]
  | case3 name rest seen known ih =>
      rw [walk_known ((same name).mp (List.contains_iff_mem.mp known)), ih same]
  | case4 name rest seen unknown absent =>
      have new : name ∉ seen := mt List.contains_iff_mem.mpr unknown
      exact (walk_unknown (mt (same name).mpr new) absent).symm
  | case5 name rest seen unknown definition found ih =>
      have new : name ∉ seen := mt List.contains_iff_mem.mpr unknown
      rw [walk_new (mt (same name).mpr new) found]
      exact ih fun other => by rw [List.mem_cons, List.mem_cons, same]

theorem walk_seen_again (known : name ∈ seen)
    (same : ∀ other, other ∈ seen' ↔ other = name ∨ other ∈ seen) :
    walk schema visits seen' = walk schema visits seen :=
  walk_seen_congr fun other => (same other).trans (or_iff_right_of_imp fun here => here ▸ known)

/-- The second part of the visits sees what the first part has listed. -/
theorem walk_append (marked : ∀ name, .leave name ∈ visits → name ∈ seen) (rest : List Visit) :
    walk schema (visits ++ rest) seen = (do
      let first ← walk schema visits seen
      let more ← walk schema rest (first ++ seen)
      .ok (first ++ more)) := by
  fun_induction walk schema visits seen with
  | case1 seen =>
      change walk schema rest seen = (walk schema rest seen >>= fun more => .ok more)
      cases walk schema rest seen <;> rfl
  | case2 name visits seen ih =>
      have markedLater : ∀ other, .leave other ∈ visits → other ∈ seen :=
        fun other member => marked other (List.mem_cons_of_mem _ member)
      rw [List.cons_append, walk, ih markedLater]
      cases walk schema visits seen with
      | error fault => rfl
      | ok first =>
          have known : name ∈ first ++ seen :=
            List.mem_append_right _ (marked name List.mem_cons_self)
          have again :
              walk schema rest (name :: first ++ seen) = walk schema rest (first ++ seen) :=
            walk_seen_again known fun other => List.mem_cons
          change ((walk schema rest (first ++ seen) >>= fun more => .ok (first ++ more)) >>=
            fun listed => .ok (name :: listed)) = (walk schema rest (name :: first ++ seen) >>=
              fun more => .ok (name :: first ++ more))
          rw [again]
          cases walk schema rest (first ++ seen) <;> rfl
  | case3 name visits seen known ih =>
      rw [List.cons_append, walk_known (List.contains_iff_mem.mp known)]
      exact ih fun other member => marked other (List.mem_cons_of_mem _ member)
  | case4 name visits seen unknown absent =>
      exact walk_unknown (mt List.contains_iff_mem.mpr unknown) absent
  | case5 name visits seen unknown definition found ih =>
      have markedInside : ∀ other,
          .leave other ∈ definition.interfaces.map Visit.enter ++ .leave name :: visits →
            other ∈ name :: seen := by
        intro other member
        rcases leave_mem_behind.mp member with rfl | later
        · exact List.mem_cons_self
        · exact List.mem_cons_of_mem _ (marked other (List.mem_cons_of_mem _ later))
      rw [List.cons_append, walk_new (mt List.contains_iff_mem.mpr unknown) found]
      rw [List.append_assoc, List.cons_append] at ih
      rw [ih markedInside]
      cases walked : walk schema (definition.interfaces.map .enter ++ .leave name :: visits)
        (name :: seen) with
      | error fault => rfl
      | ok first =>
          have known : name ∈ first ++ seen :=
            List.mem_append_left _ ((mem_walk walked name).mpr (.inl (by simp)))
          have again :
              walk schema rest (first ++ name :: seen) = walk schema rest (first ++ seen) :=
            walk_seen_again known fun other => by simp [or_left_comm]
          exact congrArg (· >>= fun more => .ok (first ++ more)) again

/-- Names that have been seen are passed by. -/
theorem walk_passed {starts : List String} (known : ∀ name ∈ starts, name ∈ seen) :
    walk schema (starts.map .enter ++ rest) seen = walk schema rest seen := by
  induction starts with
  | nil => rfl
  | cons first starts ih =>
      obtain ⟨knownFirst, knownRest⟩ := List.forall_mem_cons.mp known
      rw [List.map_cons, List.cons_append, walk_known knownFirst, ih knownRest]

/-- Whatever the names in a list declare as their interfaces is in the list, too. -/
def IsClosed (schema : Schema) (names : List String) : Prop :=
  ∀ name ∈ names, ∀ definition, schema.type? name = some definition →
    ∀ inner ∈ definition.interfaces, inner ∈ names

def Visit.isLeftOver (listed : List String) : Visit → Bool
  | .enter _ => true
  | .leave name => name ∉ listed

/-- Where a closed list of names has been seen before, a walk lists the rest of what it would list
otherwise, in the same order. -/
theorem walk_closed {listed : List String} (closed : IsClosed schema listed)
    (same : ∀ name, name ∈ seen' ↔ name ∈ seen ∨ name ∈ listed)
    (walked : walk schema visits seen = .ok names) :
    walk schema (visits.filter (·.isLeftOver listed)) seen' =
      .ok (names.filter (· ∉ listed)) := by
  fun_induction walk schema visits seen generalizing seen' names with
  | case1 seen =>
      obtain ⟨⟩ := walked
      rw [List.filter_nil, walk, List.filter_nil]
  | case2 name rest seen ih =>
      obtain ⟨behind, walkedRest, ⟨⟩⟩ := bind_eq_ok.mp walked
      have others := ih same walkedRest
      by_cases before : name ∈ listed
      · rw [List.filter_cons_of_neg (by simpa [Visit.isLeftOver] using before),
          List.filter_cons_of_neg (by simpa using before), others]
      · rw [List.filter_cons_of_pos (by simpa [Visit.isLeftOver] using before),
          List.filter_cons_of_pos (by simpa using before), walk, others]
        rfl
  | case3 name rest seen known ih =>
      have here : name ∈ seen' := (same name).mpr (.inl (List.contains_iff_mem.mp known))
      rw [List.filter_cons_of_pos rfl, walk_known here, ih same walked]
  | case4 => cases walked
  | case5 name rest seen unknown definition found ih =>
      have entered : (definition.interfaces.map Visit.enter).filter (·.isLeftOver listed) =
          definition.interfaces.map .enter := by
        rw [List.filter_eq_self]
        simp [Visit.isLeftOver]
      rw [List.filter_append, entered] at ih
      rw [List.filter_cons_of_pos rfl]
      by_cases before : name ∈ listed
      · have here : name ∈ seen' := (same name).mpr (.inr before)
        have inside : ∀ inner ∈ definition.interfaces, inner ∈ seen' := fun inner member =>
          (same inner).mpr (.inr (closed name before definition found inner member))
        rw [List.filter_cons_of_neg (by simpa [Visit.isLeftOver] using before)] at ih
        rw [walk_known here, ← walk_passed inside]
        refine ih (fun other => ?_) walked
        rw [same, List.mem_cons, or_assoc]
        exact (or_iff_right_of_imp fun named => .inr (named ▸ before)).symm
      · have new : name ∉ seen' := fun member =>
          ((same name).mp member).elim (mt List.contains_iff_mem.mpr unknown) before
        rw [List.filter_cons_of_pos (by simpa [Visit.isLeftOver] using before)] at ih
        rw [walk_new new found]
        refine ih (fun other => ?_) walked
        rw [List.mem_cons, List.mem_cons, same, or_assoc]

section

variable {interfaces more first second : List String}

theorem isClosed_flattenNames (flattened : flattenNames schema interfaces = .ok names) :
    IsClosed schema names := by
  intro name member definition found inner inside
  rw [mem_flattenNames flattened] at member ⊢
  exact .inherited member found inside

theorem flattenNames_append_eq :
    flattenNames schema (interfaces ++ more) = (do
      let first ← flattenNames schema interfaces
      let others ← walk schema (more.map .enter) first
      .ok (first ++ others)) := by
  unfold flattenNames
  rw [List.map_append, walk_append fun _ member => absurd member not_leave_mem_enter]
  simp only [List.append_nil]

theorem flattenNames_append_ok (flattened : flattenNames schema interfaces = .ok first)
    (flattened' : flattenNames schema more = .ok second) :
    flattenNames schema (interfaces ++ more) = .ok (first ++ second.filter (· ∉ first)) := by
  have entered : (more.map Visit.enter).filter (·.isLeftOver first) = more.map .enter := by
    rw [List.filter_eq_self]
    simp [Visit.isLeftOver]
  have others : walk schema ((more.map Visit.enter).filter (·.isLeftOver first)) first =
      .ok (second.filter (· ∉ first)) :=
    walk_closed (isClosed_flattenNames flattened) (by simp) flattened'
  rw [flattenNames_append_eq, flattened, ← entered, bind_eq_ok]
  exact ⟨first, rfl, bind_eq_ok.mpr ⟨_, others, rfl⟩⟩

/-- Interfaces that others bring with them add nothing to these, nor do they make them fail. -/
theorem flattenNames_implied (implied : ∀ name ∈ more, schema.Brings interfaces name) :
    flattenNames schema (interfaces ++ more) = flattenNames schema interfaces := by
  rw [flattenNames_append_eq]
  cases flattened : flattenNames schema interfaces with
  | error fault => rfl
  | ok first =>
      have known : ∀ name ∈ more, name ∈ first := fun name member =>
        (mem_flattenNames flattened name).mpr (implied name member)
      have nothing : walk schema (more.map .enter) first = .ok [] := by
        have passed : walk schema (more.map .enter ++ []) first = walk schema [] first :=
          walk_passed known
        rwa [List.append_nil, walk] at passed
      exact bind_eq_ok.mpr ⟨first, rfl, bind_eq_ok.mpr ⟨[], nothing, by rw [List.append_nil]⟩⟩

theorem succeeds_flattenNames_append :
    Succeeds (flattenNames schema (interfaces ++ more)) ↔
      Succeeds (flattenNames schema interfaces) ∧ Succeeds (flattenNames schema more) := by
  simp only [succeeds_flattenNames, Schema.brings_append, or_imp, forall_and]

end

/-- Two lists of interfaces behind one another are flattened exactly if each of them is. The second
one adds what the first one has not brought, in its own order. One that is all implied by the first
changes nothing in what a type is said to implement. -/
theorem flattenNames_append (schema : Schema) (interfaces more : List String) :
    (Succeeds (flattenNames schema (interfaces ++ more)) ↔
        Succeeds (flattenNames schema interfaces) ∧ Succeeds (flattenNames schema more)) ∧
      (∀ first second, flattenNames schema interfaces = .ok first →
        flattenNames schema more = .ok second →
          flattenNames schema (interfaces ++ more) = .ok (first ++ second.filter (· ∉ first))) ∧
      ((∀ name ∈ more, schema.Brings interfaces name) →
        implementsClause schema (interfaces ++ more) = implementsClause schema interfaces) := by
  refine ⟨succeeds_flattenNames_append, fun _ _ => flattenNames_append_ok, fun implied => ?_⟩
  unfold implementsClause flattenLinks
  rw [flattenNames_implied implied]

end GraphqlReference.Page
