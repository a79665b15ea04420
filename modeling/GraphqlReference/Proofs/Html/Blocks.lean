import GraphqlReference.Proofs.Html.Arrangement

namespace GraphqlReference.Html

/-!
The blocks that markup consists of at its outermost level: inline tokens, and elements with all that
they hold. What is balanced does not end the element that it stands in.
-/

namespace Markup

variable {α β : Type} {depth : Nat} {begun markup : Markup α}

/-- The blocks of markup that follows the beginning of a block, with this many elements open. A
block ends where no element is open any more. -/
def blocksFrom (depth : Nat) (begun : Markup α) : Markup α → List (Markup α)
  | [] => if begun.isEmpty then [] else [begun]
  | token :: rest =>
    let behind := token.depthAfter (token.depth depth)
    if behind = 0 then (begun ++ [token]) :: blocksFrom 0 [] rest
    else blocksFrom behind (begun ++ [token]) rest

/-- The blocks of markup at its outermost level. -/
def outerBlocks (markup : Markup α) : List (Markup α) :=
  blocksFrom 0 [] markup

theorem flatten_blocksFrom : (blocksFrom depth begun markup).flatten = begun ++ markup := by
  induction markup generalizing depth begun with
  | nil =>
      unfold blocksFrom
      split
      · rename_i empty
        rw [List.isEmpty_iff.mp empty]
        rfl
      · simp
  | cons token rest ih =>
      unfold blocksFrom
      dsimp only
      split
      · rw [List.flatten_cons, ih]
        simp
      · rw [ih]
        simp

/-- No token is lost or added between the blocks. -/
theorem flatten_outerBlocks (markup : Markup α) : (outerBlocks markup).flatten = markup :=
  flatten_blocksFrom

theorem blocksFrom_write {begun markup : Section} :
    blocksFrom depth (write Piece.write begun) (write Piece.write markup) =
      (blocksFrom depth begun markup).map (write Piece.write) := by
  induction markup generalizing depth begun with
  | nil => cases begun <;> rfl
  | cons token rest ih =>
      have longer : write Piece.write begun ++ [token.write Piece.write] =
          write Piece.write (begun ++ [token]) := by
        simp [write]
      have nothing : ([] : Markup Char) = write Piece.write [] := rfl
      have split : write Piece.write (token :: rest) =
          token.write Piece.write :: write Piece.write rest := rfl
      rw [split, blocksFrom, blocksFrom, Token.depth_write, Token.depthAfter_write, longer]
      split
      · rw [nothing, ih, List.map_cons]
      · exact ih

/-- The blocks are the same ones once the markup is written. -/
theorem outerBlocks_write (markup : Section) :
    outerBlocks (write Piece.write markup) = (outerBlocks markup).map (write Piece.write) := by
  have nothing : ([] : Markup Char) = write Piece.write [] := rfl
  rw [outerBlocks, nothing, blocksFrom_write, outerBlocks]

end Markup

/-- Inline tokens and whole elements one after another. What closes an element has the tag of what
opens it. -/
inductive Section.Balanced : Section → Prop
  | nil : Balanced []
  | inline {content : Fragment} {rest : Section} :
      Balanced rest → Balanced (.inline content :: rest)
  | element {element : Element} {attributes : List Attribute} {inner rest : Section} :
      Balanced inner → Balanced rest →
      Balanced (.opening [.opening element attributes] :: inner ++
        .closing [.closing element] :: rest)

/-- An inline token, or an element with all that it holds. -/
inductive Section.IsBlock : Section → Prop
  | inline (content : Fragment) : IsBlock [.inline content]
  | element (element : Element) (attributes : List Attribute) {inner : Section} :
      Section.Balanced inner →
      IsBlock (.opening [.opening element attributes] :: inner ++ [.closing [.closing element]])

namespace Section

variable {first second block inner rest : Section}

theorem Balanced.append (balanced : Balanced first) (balanced' : Balanced second) :
    Balanced (first ++ second) := by
  induction balanced with
  | nil => exact balanced'
  | inline _ ih => exact .inline ih
  | element inner _ _ ih =>
      rw [List.append_assoc, List.cons_append]
      exact .element inner ih

theorem IsBlock.balanced_append (whole : IsBlock block) (balanced : Balanced rest) :
    Balanced (block ++ rest) := by
  cases whole with
  | inline => exact .inline balanced
  | element _ _ inner =>
      rw [List.append_assoc]
      exact .element inner balanced

theorem balanced_flatten {blocks : List Section} (whole : ∀ block ∈ blocks, IsBlock block) :
    Balanced blocks.flatten := by
  induction blocks with
  | nil => exact .nil
  | cons block blocks ih =>
      obtain ⟨here, others⟩ := List.forall_mem_cons.mp whole
      exact here.balanced_append (ih others)

/-- Balanced markup inside an element leaves the element open. -/
theorem Balanced.blocksFrom_append (balanced : Balanced inner) (depth : Nat) (begun : Section) :
    Markup.blocksFrom (depth + 1) begun (inner ++ rest) =
      Markup.blocksFrom (depth + 1) (begun ++ inner) rest := by
  induction balanced generalizing depth begun rest with
  | nil => rw [List.nil_append, List.append_nil]
  | @inline content behind _ ih =>
      have step : Markup.blocksFrom (depth + 1) begun (.inline content :: (behind ++ rest)) =
          Markup.blocksFrom (depth + 1) (begun ++ [.inline content]) (behind ++ rest) := rfl
      rw [List.cons_append, step, ih, List.append_assoc, List.singleton_append]
  | @element element attributes inner behind _ _ ih ih' =>
      have opens : ∀ further : Section, Markup.blocksFrom (depth + 1) begun
          (.opening [.opening element attributes] :: further) =
        Markup.blocksFrom (depth + 2) (begun ++ [.opening [.opening element attributes]])
          further := fun _ => rfl
      have closes : ∀ begun further : Section, Markup.blocksFrom (depth + 2) begun
          (.closing [.closing element] :: further) =
        Markup.blocksFrom (depth + 1) (begun ++ [.closing [.closing element]]) further :=
        fun _ _ => rfl
      rw [List.append_assoc, List.cons_append, opens, List.cons_append, ih, closes, ih']
      simp only [List.append_assoc, List.cons_append, List.nil_append]

theorem IsBlock.outerBlocks_append (whole : IsBlock block) :
    Markup.outerBlocks (block ++ rest) = block :: Markup.outerBlocks rest := by
  cases whole with
  | inline => rfl
  | @element element attributes inner balanced =>
      have opens : ∀ further : Section,
          Markup.outerBlocks (.opening [.opening element attributes] :: further) =
        Markup.blocksFrom 1 [.opening [.opening element attributes]] further := fun _ => rfl
      rw [List.append_assoc, List.cons_append, opens, balanced.blocksFrom_append]
      rfl

/-- Blocks that are put together are the blocks of the outermost level again. -/
theorem outerBlocks_flatten {blocks : List Section} (whole : ∀ block ∈ blocks, IsBlock block) :
    Markup.outerBlocks blocks.flatten = blocks := by
  induction blocks with
  | nil => rfl
  | cons block blocks ih =>
      obtain ⟨here, others⟩ := List.forall_mem_cons.mp whole
      rw [List.flatten_cons, here.outerBlocks_append, ih others]

end Section

end GraphqlReference.Html
