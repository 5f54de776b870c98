import BlockScript.Proofs.Block.Attrs
import BlockScript.Proofs.Reading.Kind
import BlockScript.Proofs.Workspace.Lines

/-!
# What is read is not marked

Whether a branch ends in a cap block is known only when scripts are laid out. So no block that is read has
the mark for it, at any depth, and a flag that is read is one that has a meaning here: known blocks have
those of C blocks, and words name the others.

## Key results

- `Fragment.read_isUnmarked`: what a fragment gives is not marked at any depth
- `Vocabulary.lineBlock_isUnmarked`: neither is what a line gives
-/

namespace BlockScript

/-- Attributes as they are read: without the mark of a branch that ends in a cap block, and with no flag or
    one that has a meaning here. -/
structure Attrs.IsUnmarked (a : Attrs) : Prop where
  capEnd : a.capEnd = false
  flag : ∀ flag, a.flag = some flag → flag ∈ Flag.standard

/-- A block that is not marked, and neither is anything nested in it. -/
def Block.IsUnmarked (b : Block) : Prop := ∀ a ∈ b.allAttrs, a.IsUnmarked

/-- Without a `flag` and a mark there is nothing to ask of attributes. -/
private theorem Attrs.isUnmarked_of_flag_eq_none {a : Attrs} (hflag : a.flag = none)
    (h : a.capEnd = false) :
    a.IsUnmarked := by
  refine ⟨h, fun flag hsome => ?_⟩
  rw [hflag] at hsome
  cases hsome

namespace Block

/-- A block `IsUnmarked` if its own attributes are, and all that are nested in it. -/
theorem isUnmarked_iff (b : Block) :
    b.IsUnmarked ↔ b.attrs.IsUnmarked ∧ ∀ a ∈ b.pieces.flatMap Piece.allAttrs, a.IsUnmarked := by
  rw [IsUnmarked, allAttrs, List.forall_mem_cons]

/-- A block `IsUnmarked` if its own attributes are and the blocks among its pieces are. -/
theorem isUnmarked_of_blocks {b : Block} (h : b.attrs.IsUnmarked)
    (hnested : ∀ c ∈ Piece.blocks b.pieces, c.IsUnmarked) : b.IsUnmarked := by
  rw [isUnmarked_iff, ← flatMap_allAttrs_blocks]
  refine ⟨h, fun a ha => ?_⟩
  obtain ⟨c, hc, ha⟩ := List.mem_flatMap.1 ha
  exact hnested c hc a ha

/-- `Piece.ring` marks nothing. -/
private theorem isUnmarked_of_mem_ring {ps : List Piece} (h : ∀ b ∈ Piece.blocks ps, b.IsUnmarked) :
    ∀ b ∈ Piece.blocks (ps.map Piece.ring), b.IsUnmarked := by
  induction ps with
  | nil => simp [Piece.blocks]
  | cons p ps ih =>
    cases p with
    | text t => exact ih h
    -- the ring is drawn around the block itself, and what is in it stays
    | block a qs =>
      rw [Piece.blocks, List.forall_mem_cons] at h
      rw [List.map_cons, Piece.ring, Piece.blocks, List.forall_mem_cons]
      obtain ⟨hown, hnested⟩ := (isUnmarked_iff _).1 h.1
      exact ⟨(isUnmarked_iff _).2 ⟨⟨hown.capEnd, hown.flag⟩, hnested⟩, ih h.2⟩

end Block

/-! ## Fragments -/

namespace Fragment

/-- A header is not marked: its outline and its parameters have neither flag nor mark. -/
private theorem definition_isUnmarked (code word : Text) (pieces : List Text) :
    (definition code word pieces).IsUnmarked := by
  refine Block.isUnmarked_of_blocks (Attrs.isUnmarked_of_flag_eq_none rfl rfl) ?_
  simp only [definition, Piece.blocks, List.mem_singleton, forall_eq]
  refine Block.isUnmarked_of_blocks (Attrs.isUnmarked_of_flag_eq_none rfl rfl) ?_
  intro b hb
  obtain ⟨t, rfl⟩ := exists_parameter_of_mem_blocks hb
  exact Block.isUnmarked_of_blocks (Attrs.isUnmarked_of_flag_eq_none rfl rfl) (by simp [parameter, Piece.blocks])

/-- A `form` that is a block already is a header or an insert, and not marked. -/
private theorem isUnmarked_of_whole {v : Vocabulary} {isLine : Bool} {code : Text} {b : Block}
    (h : form v isLine code = .whole b) : b.IsUnmarked := by
  obtain ⟨inner, pieces, -, ⟨word, -, rfl⟩ | ⟨-, shape, -, rfl⟩⟩ := form_eq_whole h
  · exact definition_isUnmarked inner word pieces
  · exact Block.isUnmarked_of_blocks (Attrs.isUnmarked_of_flag_eq_none rfl rfl) (by simp [insert, Piece.blocks])

/-- What `read` gives is not marked at any depth. -/
theorem read_isUnmarked {v : Vocabulary} {depth : Nat} {isLine : Bool} {code : Text} {b : Block}
    (h : (read v depth isLine code).result = .ok b) : b.IsUnmarked := by
  refine @read_induction v (fun _ b => b.IsUnmarked) isUnmarked_of_whole ?_ _ _ _ _ h
  intro isLine code attrs words parts args b pieces hform hfinish hnested
  obtain ⟨ps, hps, hattrs, hpieces, -⟩ := finish_eq_ok hfinish
  -- the attributes are those of the form, with another ring at most
  have hown : b.attrs.IsUnmarked := by
    rw [hattrs]
    exact ⟨capEnd_of_block hform, fun _ => flag_mem_of_block hform⟩
  -- what is nested is not marked by induction, with rings around it or not
  refine Block.isUnmarked_of_blocks hown ?_
  rcases hpieces with hpieces | hpieces
  · rw [hpieces]
    exact hnested ps hps
  · rw [hpieces]
    exact Block.isUnmarked_of_mem_ring (hnested ps hps)

end Fragment

/-! ## Lines -/

namespace Line

/-- An argument that stands alone on a line, which `lone` gives another shape, stays `IsUnmarked`. -/
private theorem lone_isUnmarked {b : Block} (h : b.IsUnmarked) : (lone b).IsUnmarked := by
  unfold lone
  split
  · refine Block.isUnmarked_of_blocks (Attrs.isUnmarked_of_flag_eq_none rfl rfl) ?_
    simpa [Block.toPiece, Piece.blocks] using h
  · exact h

/-- So what `readBare` gives is `IsUnmarked`. -/
private theorem readBare_isUnmarked {v : Vocabulary} {line : Text} {b : Block}
    (h : (readBare v line).result = .ok b) : b.IsUnmarked := by
  unfold readBare at h
  split at h
  · obtain ⟨b₀, hb₀, rfl⟩ := Outcome.map_eq_ok h
    exact lone_isUnmarked (Fragment.read_isUnmarked hb₀)
  · exact Fragment.read_isUnmarked h

/-- A comment behind it marks nothing. -/
private theorem withComment_isUnmarked {v : Vocabulary} {comment : Option Text} {o : Outcome Block}
    {b : Block}
    (ho : ∀ b₀, o.result = .ok b₀ → b₀.IsUnmarked) (h : (withComment v comment o).result = .ok b) :
    b.IsUnmarked := by
  obtain ⟨b₀, hb₀, hpieces, hattrs⟩ := withComment_ok h
  obtain ⟨hown, hnested⟩ := (Block.isUnmarked_iff b₀).1 (ho b₀ hb₀)
  rw [Block.isUnmarked_iff, hpieces, hattrs]
  exact ⟨⟨hown.capEnd, hown.flag⟩, hnested⟩

end Line

namespace Vocabulary

open Line

/-- A line gives a block that is not marked. -/
private theorem readLine_isUnmarked {v : Vocabulary} {line : Text} {b : Block}
    (h : (v.readLine line).result = .ok b) : b.IsUnmarked := by
  unfold readLine at h
  dsimp only at h
  split at h
  · -- all of the line is read
    exact withComment_isUnmarked (fun _ => readBare_isUnmarked) h
  · split at h
    · -- a line that is a comment only
      cases h
      exact Block.isUnmarked_of_blocks (Attrs.isUnmarked_of_flag_eq_none rfl rfl)
        (by simp [Block.comment, Piece.blocks])
    · exact withComment_isUnmarked (fun _ => readBare_isUnmarked) h

/-- The block that `lineBlock` gives `IsUnmarked`, also if the line is nested too deeply. -/
theorem lineBlock_isUnmarked {v : Vocabulary} {line : Text} {b : Block}
    (h : v.lineBlock line = .ok b) : b.IsUnmarked := by
  obtain hread | ⟨-, rfl⟩ := lineBlock_ok h
  · exact readLine_isUnmarked hread
  · exact Block.isUnmarked_of_blocks (Attrs.isUnmarked_of_flag_eq_none rfl rfl)
      (by simp [Workspace.unread, Piece.blocks])

end Vocabulary

end BlockScript
