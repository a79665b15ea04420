import GraphqlReference.Page.Declaration
import GraphqlReference.Proofs.Outcome
import GraphqlReference.Proofs.Schema.References

namespace GraphqlReference.Page

/-!
The walk along declared interfaces. What it lists are the names that it comes to, each of them once
and behind its own interfaces, as far as these do not lead back to it.
-/

variable {schema : Schema}

namespace Visit

@[simp] def entered? : Visit → Option String
  | .enter name => some name
  | .leave _ => none

@[simp] def left? : Visit → Option String
  | .enter _ => none
  | .leave name => some name

/-- The name that a visit is about. -/
@[simp] def name : Visit → String
  | .enter name | .leave name => name

end Visit

section

variable {starts : List String} {visits : List Visit}

theorem entered_enter : (starts.map Visit.enter).filterMap Visit.entered? = starts := by
  simp [Function.comp_def]

theorem left_enter : (starts.map Visit.enter).filterMap Visit.left? = [] := by
  simp [Function.comp_def]

theorem entered_behind {name : String} :
    (starts.map Visit.enter ++ .leave name :: visits).filterMap Visit.entered? =
      starts ++ visits.filterMap Visit.entered? := by
  rw [List.filterMap_append, entered_enter, List.filterMap_cons_none (by rfl)]

theorem not_leave_mem_enter {name : String} : .leave name ∉ starts.map Visit.enter := by
  simp

theorem leave_mem_leave {name other : String} :
    .leave other ∈ Visit.leave name :: visits ↔ other = name ∨ .leave other ∈ visits := by
  simp

theorem leave_mem_behind {name other : String} :
    .leave other ∈ starts.map Visit.enter ++ .leave name :: visits ↔
      other = name ∨ .leave other ∈ visits := by
  simp

end

/-- The names that a walk comes to from its starts without passing through one that has been
seen. -/
inductive Comes (schema : Schema) (seen starts : List String) : String → Prop
  | start {name : String} : name ∈ starts → name ∉ seen → Comes schema seen starts name
  | step {outer name : String} {definition : TypeDefinition} : Comes schema seen starts outer →
      schema.type? outer = some definition → name ∈ definition.interfaces → name ∉ seen →
      Comes schema seen starts name

section

variable {seen starts : List String} {name other : String} {definition : TypeDefinition}

theorem comes_nil_iff : Comes schema [] starts name ↔ schema.Brings starts name := by
  constructor
  · intro comes
    induction comes with
    | start member _ => exact .declared member
    | step _ found member _ ih => exact .inherited ih found member
  · intro brings
    induction brings with
    | declared member => exact .start member List.not_mem_nil
    | inherited _ found member ih => exact .step ih found member List.not_mem_nil

theorem not_comes_nil : ¬ Comes schema seen [] name := by
  intro comes
  induction comes with
  | start member _ => exact absurd member List.not_mem_nil
  | step _ _ _ _ ih => exact ih

/-- A start that has been seen leads nowhere. -/
theorem comes_cons_seen (known : name ∈ seen) :
    Comes schema seen (name :: starts) other ↔ Comes schema seen starts other := by
  constructor
  · intro comes
    induction comes with
    | start member unseen =>
        rcases List.mem_cons.mp member with rfl | later
        · exact absurd known unseen
        · exact .start later unseen
    | step _ found member unseen ih => exact .step ih found member unseen
  · intro comes
    induction comes with
    | start member unseen => exact .start (List.mem_cons_of_mem _ member) unseen
    | step _ found member unseen ih => exact .step ih found member unseen

/-- A start that is new leads to itself and to where its interfaces lead. -/
theorem comes_cons_unseen (unseen : name ∉ seen) (found : schema.type? name = some definition) :
    Comes schema seen (name :: starts) other ↔
      other = name ∨ Comes schema (name :: seen) (definition.interfaces ++ starts) other := by
  constructor
  · intro comes
    induction comes with
    | @start other member unseenOther =>
        by_cases same : other = name
        · exact .inl same
        · have later : other ∈ starts := (List.mem_cons.mp member).resolve_left same
          exact .inr (.start (List.mem_append_right _ later)
            (List.not_mem_cons_of_ne_of_not_mem same unseenOther))
    | @step outer other definition' _ found' member unseenOther ih =>
        by_cases same : other = name
        · exact .inl same
        · have new := List.not_mem_cons_of_ne_of_not_mem same unseenOther
          rcases ih with rfl | comes
          · obtain rfl : definition' = definition := Option.some.inj (found'.symm.trans found)
            exact .inr (.start (List.mem_append_left _ member) new)
          · exact .inr (.step comes found' member new)
  · have start : Comes schema seen (name :: starts) name := .start List.mem_cons_self unseen
    rintro (rfl | comes)
    · exact start
    · induction comes with
      | start member unseenOther =>
          have new := fun known => unseenOther (List.mem_cons_of_mem _ known)
          rcases List.mem_append.mp member with own | later
          · exact .step start found own new
          · exact .start (List.mem_cons_of_mem _ later) new
      | step _ found' member unseenOther ih =>
          exact .step ih found' member fun known => unseenOther (List.mem_cons_of_mem _ known)

end

/-- A walk succeeds if all names are known that it comes to. -/
theorem succeeds_walk (visits : List Visit) (seen : List String) :
    Succeeds (walk schema visits seen) ↔
      ∀ name, Comes schema seen (visits.filterMap Visit.entered?) name → schema.HasType name := by
  fun_induction walk schema visits seen with
  | case1 seen => exact iff_of_true (succeeds_ok []) fun _ comes => absurd comes not_comes_nil
  | case2 name rest seen ih => exact succeeds_bind_ok.trans ih
  | case3 name rest seen known ih =>
      have member : name ∈ seen := List.contains_iff_mem.mp known
      simp only [List.filterMap_cons, Visit.entered?, comes_cons_seen member, ih]
  | case4 name rest seen unknown found =>
      have new : name ∉ seen := fun member => unknown (List.contains_iff_mem.mpr member)
      refine iff_of_false (not_succeeds_error _) fun known => ?_
      have here := known name (.start List.mem_cons_self new)
      rw [Schema.HasType, found] at here
      exact Bool.false_ne_true here
  | case5 name rest seen unknown definition found ih =>
      have new : name ∉ seen := fun member => unknown (List.contains_iff_mem.mpr member)
      have here : schema.HasType name := by rw [Schema.HasType, found, Option.isSome_some]
      rw [ih, entered_behind]
      simp only [List.filterMap_cons, Visit.entered?, comes_cons_unseen new found, or_imp,
        forall_and, forall_eq, here, true_and]

section

variable {visits : List Visit} {seen names : List String}

theorem not_mem_seen_of_comes {starts : List String} {name : String}
    (comes : Comes schema seen starts name) : name ∉ seen := by
  cases comes with
  | start _ unseen | step _ _ _ unseen => exact unseen

/-- A walk lists the names that are left to be listed and those that it comes to, and no others. -/
theorem mem_walk (walked : walk schema visits seen = .ok names) (name : String) :
    name ∈ names ↔
      .leave name ∈ visits ∨ Comes schema seen (visits.filterMap Visit.entered?) name := by
  fun_induction walk schema visits seen generalizing names with
  | case1 seen =>
      obtain ⟨⟩ := walked
      simp [not_comes_nil]
  | case2 here rest seen ih =>
      obtain ⟨listed, walkedRest, ⟨⟩⟩ := bind_eq_ok.mp walked
      simp [ih walkedRest, List.filterMap_cons, or_assoc]
  | case3 here rest seen known ih =>
      have member : here ∈ seen := List.contains_iff_mem.mp known
      simp [ih walked, comes_cons_seen member]
  | case4 => cases walked
  | case5 here rest seen unknown definition found ih =>
      have new : here ∉ seen := fun member => unknown (List.contains_iff_mem.mpr member)
      rw [ih walked, entered_behind, List.filterMap_cons_some (by rfl), comes_cons_unseen new found]
      simp [or_left_comm, or_assoc]

/-- No name is listed twice, as every name is marked before it is listed. -/
theorem nodup_walk (walked : walk schema visits seen = .ok names)
    (marked : ∀ name, .leave name ∈ visits → name ∈ seen)
    (distinct : (visits.filterMap Visit.left?).Nodup) : names.Nodup := by
  fun_induction walk schema visits seen generalizing names with
  | case1 seen =>
      obtain ⟨⟩ := walked
      exact List.nodup_nil
  | case2 name rest seen ih =>
      obtain ⟨listed, walkedRest, ⟨⟩⟩ := bind_eq_ok.mp walked
      obtain ⟨absent, distinctRest⟩ := List.nodup_cons.mp distinct
      have markedRest := fun other member => marked other (List.mem_cons_of_mem _ member)
      refine List.nodup_cons.mpr ⟨fun member => ?_, ih walkedRest markedRest distinctRest⟩
      rcases (mem_walk walkedRest name).mp member with leaves | comes
      · exact absent (List.mem_filterMap.mpr ⟨_, leaves, rfl⟩)
      · exact not_mem_seen_of_comes comes (marked name List.mem_cons_self)
  | case3 name rest seen known ih =>
      exact ih walked (fun other member => marked other (List.mem_cons_of_mem _ member)) distinct
  | case4 => cases walked
  | case5 name rest seen unknown definition found ih =>
      have markedRest : ∀ other, .leave other ∈ rest → other ∈ seen :=
        fun other member => marked other (List.mem_cons_of_mem _ member)
      refine ih walked (fun other member => ?_) ?_
      · rcases leave_mem_behind.mp member with rfl | later
        · exact List.mem_cons_self
        · exact List.mem_cons_of_mem _ (markedRest other later)
      · rw [List.filterMap_append, left_enter, List.nil_append]
        refine List.nodup_cons.mpr ⟨fun member => ?_, distinct⟩
        obtain ⟨visit, inside, leaves⟩ := List.mem_filterMap.mp member
        cases visit with
        | enter => cases leaves
        | leave other =>
            obtain rfl : other = name := Option.some.inj leaves
            exact unknown (List.contains_iff_mem.mpr (markedRest other inside))

end

/-- A name that is still to be listed has brought all that stands in front of it. -/
def IsNested (schema : Schema) (visits : List Visit) : Prop :=
  visits.Pairwise fun upper lower =>
    ∀ name, lower = .leave name → schema.Brings [name] upper.name

/-- Whatever is to be listed finds its own interfaces settled then: before the visits, by a visit in
front of it, or because they lead back to it. -/
def Settles (schema : Schema) : List String → List Visit → Prop
  | _, [] => True
  | settled, .enter name :: rest => Settles schema (name :: settled) rest
  | settled, .leave name :: rest =>
    (∀ definition, schema.type? name = some definition → ∀ inner ∈ definition.interfaces,
      inner ∈ settled ∨ schema.Brings [inner] name) ∧ Settles schema (name :: settled) rest

section

variable {visits : List Visit} {settled settled' : List String} {name : String}

theorem brings_self : schema.Brings [name] name :=
  .declared List.mem_cons_self

theorem isNested_enter (starts : List String) : IsNested schema (starts.map .enter) := by
  refine List.pairwise_map.mpr (List.pairwise_of_forall fun _ _ => ?_)
  rintro name ⟨⟩

theorem Settles.mono (settles : Settles schema settled visits) (more : settled ⊆ settled') :
    Settles schema settled' visits := by
  induction visits generalizing settled settled' with
  | nil => exact trivial
  | cons visit rest ih =>
      cases visit with
      | enter name => exact ih settles (List.cons_subset_cons name more)
      | leave name =>
          refine ⟨fun definition found inner member => ?_,
            ih settles.2 (List.cons_subset_cons name more)⟩
          exact (settles.1 definition found inner member).imp_left (@more inner)

/-- A name that is listed later on need not be settled. -/
theorem Settles.unsettled (settles : Settles schema (name :: settled) visits)
    (nested : IsNested schema visits) (leaves : .leave name ∈ visits) :
    Settles schema settled visits := by
  induction visits generalizing settled with
  | nil => exact trivial
  | cons visit rest ih =>
      obtain ⟨above, nestedRest⟩ := List.pairwise_cons.mp nested
      cases visit with
      | enter other =>
          have later : .leave name ∈ rest := by simpa using leaves
          exact ih (Settles.mono settles (List.Perm.swap ..).subset) nestedRest later
      | leave other =>
          have leadsBack : schema.Brings [name] other := by
            rcases leave_mem_leave.mp leaves with rfl | later
            · exact brings_self
            · exact above _ later name rfl
          refine ⟨fun definition found inner member => ?_, ?_⟩
          · rcases settles.1 definition found inner member with known | brings
            · rcases List.mem_cons.mp known with rfl | known
              · exact .inr leadsBack
              · exact .inl known
            · exact .inr brings
          · have swapped := settles.2.mono (List.Perm.swap ..).subset
            rcases leave_mem_leave.mp leaves with rfl | later
            · exact swapped.mono (by simp)
            · exact ih swapped nestedRest later

theorem settles_enter {starts : List String}
    (settles : Settles schema (starts ++ settled) visits) :
    Settles schema settled (starts.map .enter ++ visits) := by
  induction starts generalizing settled with
  | nil => exact settles
  | cons first rest ih => exact ih (settles.mono List.perm_middle.symm.subset)

end

section

variable {visits : List Visit} {seen listed names : List String}

/-- Names come behind their own interfaces, if those that are still to be listed are able to. -/
theorem settles_walk (walked : walk schema visits seen = .ok names)
    (nested : IsNested schema visits) (settles : Settles schema listed visits)
    (known : ∀ name ∈ seen, name ∈ listed ∨ .leave name ∈ visits) :
    Settles schema listed (names.map .leave) := by
  fun_induction walk schema visits seen generalizing listed names with
  | case1 seen =>
      obtain ⟨⟩ := walked
      exact trivial
  | case2 name rest seen ih =>
      obtain ⟨behind, walkedRest, ⟨⟩⟩ := bind_eq_ok.mp walked
      refine ⟨settles.1, ih walkedRest (List.pairwise_cons.mp nested).2 settles.2 ?_⟩
      intro other member
      rcases known other member with before | leaves
      · exact .inl (List.mem_cons_of_mem _ before)
      · rcases leave_mem_leave.mp leaves with rfl | later
        · exact .inl List.mem_cons_self
        · exact .inr later
  | case3 name rest seen marked ih =>
      have nestedRest := (List.pairwise_cons.mp nested).2
      have knownRest : ∀ other ∈ seen, other ∈ listed ∨ .leave other ∈ rest :=
        fun other member => (known other member).imp_right fun leaves => by simpa using leaves
      refine ih walked nestedRest ?_ knownRest
      rcases knownRest name (List.contains_iff_mem.mp marked) with before | leaves
      · exact Settles.mono settles (List.cons_subset.mpr ⟨before, List.Subset.refl _⟩)
      · exact Settles.unsettled settles nestedRest leaves
  | case4 => cases walked
  | case5 name rest seen unmarked definition found ih =>
      obtain ⟨above, nestedRest⟩ := List.pairwise_cons.mp nested
      have brought : ∀ other, .leave other ∈ Visit.leave name :: rest →
          schema.Brings [other] name := by
        intro other leaves
        rcases leave_mem_leave.mp leaves with rfl | later
        · exact brings_self
        · exact above _ later other rfl
      refine ih walked ?_ (settles_enter ⟨?_, ?_⟩) ?_
      · refine List.pairwise_append.mpr
          ⟨isNested_enter _, List.pairwise_cons.mpr ⟨?_, nestedRest⟩, ?_⟩
        · rintro _ later other rfl
          exact brought other (List.mem_cons_of_mem _ later)
        · rintro upper inside _ later other rfl
          obtain ⟨inner, member, rfl⟩ := List.mem_map.mp inside
          exact .inherited (brought other later) found member
      · intro definition' found' inner member
        obtain rfl : definition' = definition := Option.some.inj (found'.symm.trans found)
        exact .inl (List.mem_append_left _ member)
      · exact Settles.mono settles (by simp)
      · intro other member
        rcases List.mem_cons.mp member with rfl | member
        · exact .inr (by simp)
        · refine (known other member).imp_right fun leaves => leave_mem_behind.mpr (.inr ?_)
          simpa using leaves

theorem Settles.split {settled before after : List String} {name : String}
    (settles : Settles schema settled ((before ++ name :: after).map .leave))
    {definition : TypeDefinition} (found : schema.type? name = some definition) {inner : String}
    (member : inner ∈ definition.interfaces) :
    inner ∈ settled ∨ inner ∈ before ∨ schema.Brings [inner] name := by
  induction before generalizing settled with
  | nil => exact (settles.1 definition found inner member).imp_right .inr
  | cons first rest ih =>
      rcases ih settles.2 with known | known | leadsBack
      · rcases List.mem_cons.mp known with rfl | known
        · exact .inr (.inl List.mem_cons_self)
        · exact .inl known
      · exact .inr (.inl (List.mem_cons_of_mem _ known))
      · exact .inr (.inr leadsBack)

end

section

variable {interfaces names : List String}

theorem succeeds_flattenNames (interfaces : List String) :
    Succeeds (flattenNames schema interfaces) ↔
      ∀ name, schema.Brings interfaces name → schema.HasType name := by
  rw [flattenNames, succeeds_walk, entered_enter]
  exact forall_congr' fun name => imp_congr_left comes_nil_iff

theorem mem_flattenNames (flattened : flattenNames schema interfaces = .ok names) (name : String) :
    name ∈ names ↔ schema.Brings interfaces name := by
  rw [mem_walk flattened, entered_enter, comes_nil_iff]
  exact or_iff_right not_leave_mem_enter

theorem nodup_flattenNames (flattened : flattenNames schema interfaces = .ok names) :
    names.Nodup := by
  refine nodup_walk flattened (fun _ member => absurd member not_leave_mem_enter) ?_
  rw [left_enter]
  exact List.nodup_nil

theorem settles_flattenNames (flattened : flattenNames schema interfaces = .ok names) :
    Settles schema [] (names.map .leave) := by
  have settled : Settles schema [] (interfaces.map .enter ++ []) := settles_enter trivial
  rw [List.append_nil] at settled
  exact settles_walk flattened (isNested_enter interfaces) settled
    fun _ member => absurd member List.not_mem_nil

end

/-- Interfaces can be flattened exactly if all names are declared that they bring with them. These
names are listed then, each of them once, and behind the interfaces that it declares itself, but for
those that bring it in their turn. -/
theorem flattenNames_exact (schema : Schema) (interfaces : List String) :
    (Succeeds (flattenNames schema interfaces) ↔
        ∀ name, schema.Brings interfaces name → schema.HasType name) ∧
      ∀ names, flattenNames schema interfaces = .ok names →
        names.Nodup ∧ (∀ name, name ∈ names ↔ schema.Brings interfaces name) ∧
          ∀ before name after, names = before ++ name :: after →
            ∀ definition, schema.type? name = some definition →
              ∀ inner ∈ definition.interfaces,
                inner ∈ before ∨ schema.Brings [inner] name := by
  refine ⟨succeeds_flattenNames interfaces, fun names flattened =>
    ⟨nodup_flattenNames flattened, mem_flattenNames flattened, ?_⟩⟩
  rintro before name after rfl definition found inner member
  have settled := (settles_flattenNames flattened).split found member
  exact settled.resolve_left List.not_mem_nil

end GraphqlReference.Page
