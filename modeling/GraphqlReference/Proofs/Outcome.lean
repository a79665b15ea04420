import Mathlib.Data.List.Forall2

namespace GraphqlReference

variable {ε α β : Type}

theorem bind_eq_ok {first : Except ε α} {next : α → Except ε β} {result : β} :
    (first >>= next) = .ok result ↔ ∃ value, first = .ok value ∧ next value = .ok result := by
  cases first with
  | error fault =>
      constructor
      · rintro ⟨⟩
      · rintro ⟨_, ⟨⟩, _⟩
  | ok value => exact ⟨fun same => ⟨value, rfl, same⟩, fun ⟨_, rfl, same⟩ => same⟩

theorem ite_eq_ok {condition : Prop} [Decidable condition] {value result : α} {fault : ε} :
    (if condition then .ok value else .error fault : Except ε α) = .ok result ↔
      condition ∧ result = value := by
  by_cases holds : condition
  · rw [if_pos holds]
    constructor
    · rintro ⟨⟩
      exact ⟨holds, rfl⟩
    · rintro ⟨_, rfl⟩
      rfl
  · rw [if_neg holds]
    constructor
    · rintro ⟨⟩
    · rintro ⟨held, _⟩
      exact absurd held holds

theorem mapM_eq_ok {change : α → Except ε β} {values : List α} {results : List β} :
    values.mapM change = .ok results ↔
      List.Forall₂ (fun value result => change value = .ok result) values results := by
  induction values generalizing results with
  | nil =>
      constructor
      · rintro ⟨⟩
        exact .nil
      · rintro ⟨⟩
        rfl
  | cons first rest ih =>
      rw [List.mapM_cons, bind_eq_ok]
      constructor
      · rintro ⟨value, changed, more⟩
        obtain ⟨values, others, ⟨⟩⟩ := bind_eq_ok.mp more
        exact .cons changed (ih.mp others)
      · rintro (_ | ⟨changed, others⟩)
        exact ⟨_, changed, bind_eq_ok.mpr ⟨_, ih.mpr others, rfl⟩⟩

/-- What a list of results holds for the values that are kept. -/
theorem mapM_filter {change : α → Except ε β} (keep : α → Bool) {values : List α}
    {results : List β} (changed : values.mapM change = .ok results) :
    (values.filter keep).mapM change =
      .ok (((values.zip results).filter fun pair => keep pair.1).map Prod.snd) := by
  rw [mapM_eq_ok] at changed ⊢
  induction changed with
  | nil => exact .nil
  | @cons value result values results here _ ih =>
      rw [List.zip_cons_cons, List.filter_cons, List.filter_cons]
      cases keep value with
      | true => exact .cons here ih
      | false => exact ih

theorem mem_of_forall₂ {relation : α → β → Prop} {values : List α} {results : List β}
    (related : List.Forall₂ relation values results) {result : β} (member : result ∈ results) :
    ∃ value ∈ values, relation value result := by
  induction related with
  | nil => exact absurd member List.not_mem_nil
  | cons here _ ih =>
      rcases List.mem_cons.mp member with rfl | later
      · exact ⟨_, List.mem_cons_self, here⟩
      · obtain ⟨value, inside, found⟩ := ih later
        exact ⟨value, List.mem_cons_of_mem _ inside, found⟩

theorem mem_of_mapM {change : α → Except ε β} {values : List α} {results : List β}
    (changed : values.mapM change = .ok results) {result : β} (member : result ∈ results) :
    ∃ value ∈ values, change value = .ok result :=
  mem_of_forall₂ (mapM_eq_ok.mp changed) member

theorem mem_of_mapM_some {change : α → Option β} {values : List α} {results : List β}
    (changed : values.mapM change = some results) {result : β} (member : result ∈ results) :
    ∃ value ∈ values, change value = some result := by
  induction values generalizing results with
  | nil =>
      obtain rfl : results = [] := by simpa using changed.symm
      exact absurd member List.not_mem_nil
  | cons first rest ih =>
      rw [List.mapM_cons] at changed
      obtain ⟨here, changedFirst, changed⟩ := Option.bind_eq_some_iff.mp changed
      obtain ⟨more, changedMore, ⟨⟩⟩ := Option.bind_eq_some_iff.mp changed
      rcases List.mem_cons.mp member with rfl | later
      · exact ⟨first, List.mem_cons_self, changedFirst⟩
      · obtain ⟨value, inside, found⟩ := ih changedMore later
        exact ⟨value, List.mem_cons_of_mem _ inside, found⟩

/-- The computation gives a value. -/
def Succeeds (outcome : Except ε α) : Prop :=
  ∃ value, outcome = .ok value

theorem succeeds_ok (value : α) : Succeeds (.ok value : Except ε α) :=
  ⟨value, rfl⟩

theorem not_succeeds_error (fault : ε) : ¬ Succeeds (.error fault : Except ε α) := by
  rintro ⟨_, ⟨⟩⟩

/-- Two computations in a row succeed together, if success of the second one does not depend on
what it is given. -/
theorem succeeds_bind {first : Except ε α} {next : α → Except ε β} {property : Prop}
    (alike : ∀ value, Succeeds (next value) ↔ property) :
    Succeeds (first >>= next) ↔ Succeeds first ∧ property := by
  cases first with
  | error fault =>
      exact iff_of_false (not_succeeds_error fault) fun both => not_succeeds_error fault both.1
  | ok value => exact (alike value).trans (and_iff_right (succeeds_ok value)).symm

theorem succeeds_bind_ok {first : Except ε α} {change : α → β} :
    Succeeds (first >>= fun value => .ok (change value)) ↔ Succeeds first :=
  (succeeds_bind fun value => iff_true_intro (succeeds_ok (change value))).trans
    (iff_of_eq (and_true _))

theorem succeeds_mapM {change : α → Except ε β} {values : List α} :
    Succeeds (values.mapM change) ↔ ∀ value ∈ values, Succeeds (change value) := by
  induction values with
  | nil => exact iff_of_true (succeeds_ok []) fun _ member => absurd member List.not_mem_nil
  | cons first rest ih =>
      rw [List.mapM_cons, List.forall_mem_cons, ← ih]
      exact succeeds_bind fun _ => succeeds_bind_ok

theorem foldlM_invariant {step : α → β → Except ε α} {property : α → Prop} {items : List β}
    (kept : ∀ {state item next}, item ∈ items → property state → step state item = .ok next →
      property next)
    {start result : α} (holds : property start)
    (folded : items.foldlM step start = .ok result) : property result := by
  induction items generalizing start with
  | nil =>
      obtain ⟨⟩ := folded
      exact holds
  | cons item rest ih =>
      obtain ⟨next, stepped, folded⟩ := bind_eq_ok.mp folded
      exact ih (fun member => kept (List.mem_cons_of_mem _ member))
        (kept List.mem_cons_self holds stepped) folded

/-- The computation gives a value, unless it fails for one of the admitted faults. -/
def FailsOnly (admitted : ε → Prop) (outcome : Except ε α) : Prop :=
  ∀ fault, outcome = .error fault → admitted fault

namespace FailsOnly

variable {admitted : ε → Prop} {first : Except ε α}

theorem ok (value : α) : FailsOnly admitted (.ok value : Except ε α) := by
  rintro _ ⟨⟩

theorem error {fault : ε} (here : admitted fault) :
    FailsOnly admitted (.error fault : Except ε α) := by
  rintro _ ⟨⟩
  exact here

theorem bind {next : α → Except ε β} (here : FailsOnly admitted first)
    (further : ∀ value, first = .ok value → FailsOnly admitted (next value)) :
    FailsOnly admitted (first >>= next) := by
  cases first with
  | error fault => exact error (here fault rfl)
  | ok value => exact further value rfl

theorem bind_ok {change : α → β} (here : FailsOnly admitted first) :
    FailsOnly admitted (first >>= fun value => .ok (change value)) :=
  here.bind fun value _ => ok (change value)

theorem mapM {change : α → Except ε β} {values : List α}
    (each : ∀ value ∈ values, FailsOnly admitted (change value)) :
    FailsOnly admitted (values.mapM change) := by
  induction values with
  | nil => exact ok []
  | cons first rest ih =>
      obtain ⟨here, later⟩ := List.forall_mem_cons.mp each
      rw [List.mapM_cons]
      exact here.bind fun _ _ => (ih later).bind_ok

end FailsOnly

/-- The computation fails for the given fault, or gives a value if there is none. -/
def FailsFor (outcome : Except ε α) (fault? : Option ε) : Prop :=
  ∀ fault, outcome = .error fault ↔ fault? = some fault

namespace FailsFor

variable {fault? later? : Option ε}

theorem error_iff {fault : ε} :
    FailsFor (.error fault : Except ε α) fault? ↔ fault? = some fault := by
  constructor
  · exact fun told => (told fault).mp rfl
  · rintro rfl other
    rw [Except.error.injEq, Option.some.injEq]

theorem ok_iff {value : α} : FailsFor (.ok value : Except ε α) fault? ↔ fault? = none := by
  constructor
  · intro told
    refine Option.eq_none_iff_forall_ne_some.mpr fun fault same => ?_
    cases (told fault).mpr same
  · rintro rfl fault
    simp

/-- The first of two computations decides, unless nothing is wrong with it. -/
theorem bind {first : Except ε α} {next : α → Except ε β} (told : FailsFor first fault?)
    (further : ∀ value, first = .ok value → FailsFor (next value) later?) :
    FailsFor (first >>= next) (fault? <|> later?) := by
  cases first with
  | error fault =>
      rw [error_iff.mp told]
      exact error_iff.mpr rfl
  | ok value =>
      rw [ok_iff.mp told]
      exact further value rfl

end FailsFor

/-- Both computations fail for the same reason, or both give values and these are related. -/
inductive Agree (related : α → β → Prop) : Except ε α → Except ε β → Prop
  | error (fault : ε) : Agree related (.error fault) (.error fault)
  | ok {value : α} {value' : β} : related value value' → Agree related (.ok value) (.ok value')

namespace Agree

variable {α' β' : Type} {related : α → α' → Prop} {related' : β → β' → Prop}

theorem bind {first : Except ε α} {first' : Except ε α'} {next : α → Except ε β}
    {next' : α' → Except ε β'} (agree : Agree related first first')
    (further : ∀ value value', related value value' → Agree related' (next value) (next' value')) :
    Agree related' (first >>= next) (first' >>= next') := by
  cases agree with
  | error fault => exact .error fault
  | ok here => exact further _ _ here

/-- Computations that go on alike from the same value agree, whether or not there is one. -/
theorem bind_same {first : Except ε α} {next : α → Except ε β} {next' : α → Except ε β'}
    (further : ∀ value, Agree related' (next value) (next' value)) :
    Agree related' (first >>= next) (first >>= next') := by
  cases first with
  | error fault => exact .error fault
  | ok value => exact further value

theorem eq {first second : Except ε α} (agree : Agree (· = ·) first second) : first = second := by
  cases agree with
  | error fault => rfl
  | ok here => exact congrArg _ here

/-- What is related when both computations give it may stand for what the computations agree on. -/
theorem imp {first : Except ε α} {first' : Except ε α'} (agree : Agree related first first')
    {stronger : α → α' → Prop}
    (implied : ∀ value value', first = .ok value → first' = .ok value' → related value value' →
      stronger value value') : Agree stronger first first' := by
  cases agree with
  | error fault => exact .error fault
  | ok here => exact .ok (implied _ _ rfl rfl here)

theorem mapM {change : α → Except ε β} {change' : α' → Except ε β'} {values : List α}
    {values' : List α'} (all : List.Forall₂ related values values')
    (changed : ∀ value value', related value value' →
      Agree related' (change value) (change' value')) :
    Agree (List.Forall₂ related') (values.mapM change) (values'.mapM change') := by
  induction all with
  | nil => exact .ok .nil
  | cons here _ ih =>
      rw [List.mapM_cons, List.mapM_cons]
      exact (changed _ _ here).bind fun _ _ first => ih.bind fun _ _ rest => .ok (.cons first rest)

end Agree

end GraphqlReference
