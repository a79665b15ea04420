import GraphqlReference.CommandLine.FileSystem
import GraphqlReference.Proofs.Outcome

namespace GraphqlReference.CommandLine.FileTree

variable {tree after : FileTree} {directory place other : Place} {path content : String}
  {entry : Entry}

theorem lookup_cons_eq (known : Place) (entry : Entry) (rest : FileTree) (place : Place) :
    List.lookup place ((known, entry) :: rest) =
      if place = known then some entry else List.lookup place rest := by
  rw [List.lookup_cons]
  by_cases same : place = known
  · rw [if_pos same, beq_iff_eq.mpr same]
  · rw [if_neg same, beq_eq_false_iff_ne.mpr same]

theorem lookup_put (tree : FileTree) (place other : Place) (entry : Entry) :
    (tree.put place entry).lookup other =
      if other = place then some entry else tree.lookup other := by
  induction tree with
  | nil => exact lookup_cons_eq place entry [] other
  | cons first rest ih =>
      obtain ⟨known, old⟩ := first
      by_cases here : known = place
      · rw [put, if_pos here, lookup_cons_eq, lookup_cons_eq, here]
        split <;> rfl
      · rw [put, if_neg here, lookup_cons_eq, lookup_cons_eq, ih]
        by_cases same : other = known
        · rw [if_pos same, if_pos same, if_neg (same ▸ here)]
        · rw [if_neg same, if_neg same]

theorem entry?_put_self (below : place ≠ []) :
    entry? (tree.put place entry) place = some entry := by
  rw [FileTree.entry?, if_neg (by simpa using below), lookup_put, if_pos rfl]

theorem entry?_put_of_ne (different : other ≠ place) :
    entry? (tree.put place entry) other = tree.entry? other := by
  rw [FileTree.entry?, FileTree.entry?, lookup_put, if_neg different]

theorem checkDirectory_eq_ok :
    tree.checkDirectory place = .ok () ↔ tree.entry? place = some .directory := by
  unfold checkDirectory
  split <;> simp_all

/-- Directories stay where they are when something else is replaced. -/
theorem placeOf_put (file : tree.entry? place ≠ some .directory) {start : Place}
    {components : List (List Char)} (located : tree.placeOf start components = .ok other) :
    (tree.put place entry).placeOf start components = .ok other := by
  induction components generalizing start with
  | nil => exact located
  | cons component rest ih =>
      rw [placeOf, List.foldlM_cons] at located ⊢
      obtain ⟨next, stepped, located⟩ := bind_eq_ok.mp located
      obtain ⟨_, checked, named⟩ := bind_eq_ok.mp stepped
      have directory := checkDirectory_eq_ok.mp checked
      have different : start ≠ place := by
        rintro rfl
        exact file directory
      rw [← entry?_put_of_ne different] at directory
      have again : step (tree.put place entry) start component = .ok next :=
        bind_eq_ok.mpr ⟨(), checkDirectory_eq_ok.mpr directory, named⟩
      exact bind_eq_ok.mpr ⟨next, again, ih located⟩

theorem write_eq_ok : tree.write directory path content = .ok after ↔
    ∃ place, tree.locateFile directory path = .ok place ∧ tree.entry? place ≠ some .directory ∧
      after = tree.put place (.text content) := by
  unfold write
  rw [bind_eq_ok]
  refine exists_congr fun place => and_congr_right fun _ => ?_
  split
  · simp_all
  · rename_i file
    constructor
    · rintro ⟨⟩
      exact ⟨file, rfl⟩
    · rintro ⟨_, rfl⟩
      rfl

/-- What is written to one place: it is there afterwards, and all else is as it was. -/
structure DiffersAt (before after : FileTree) (place : Place) (content : String) : Prop where
  here : after.entry? place = some (.text content)
  elsewhere : ∀ other, other ≠ place → after.entry? other = before.entry? other

theorem ne_root (file : tree.entry? place ≠ some .directory) : place ≠ [] := by
  rintro rfl
  exact file rfl

theorem differsAt_put (file : tree.entry? place ≠ some .directory) :
    DiffersAt tree (tree.put place (.text content)) place content where
  here := entry?_put_self (ne_root file)
  elsewhere _ different := entry?_put_of_ne different

theorem read_put (located : tree.locateFile directory path = .ok place)
    (file : tree.entry? place ≠ some .directory) :
    (tree.put place (.text content)).read directory path = .ok content := by
  obtain ⟨_, short, located⟩ := bind_eq_ok.mp located
  have found : (tree.put place (.text content)).locate directory path = .ok place := by
    refine bind_eq_ok.mpr ⟨(), short, ?_⟩
    dsimp only at located
    split at located
    · obtain ⟨_, _, located⟩ := bind_eq_ok.mp located
      obtain ⟨_, _, ⟨⟩⟩ := bind_eq_ok.mp located
    · exact placeOf_put file located
  refine bind_eq_ok.mpr ⟨place, found, ?_⟩
  rw [entry?_put_self (ne_root file)]

end GraphqlReference.CommandLine.FileTree
