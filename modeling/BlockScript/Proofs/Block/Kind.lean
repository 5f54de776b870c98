import Mathlib.Logic.ExistsUnique
import BlockScript.Proofs.Block.Formed
import BlockScript.Reading.Override

/-!
# Kinds of blocks

What is called a block is one of four things: an insert, which is text in an argument, a comment that stands
on its own, the outline in the header of a defined block, or a block proper. The kinds exclude each other,
and they say what may be nested in what: inserts and blocks proper in blocks, an outline in a header, and a
comment nowhere. A ring is drawn around what is nested in a block with that flag, and around nothing else.

## Key results

- `Block.IsOf.unique`: nothing is of two kinds
- `Block.classified_iff`: a block of which everything at every depth has a kind and stands where it may
- `Block.Classified.mapAttrs`: a change of categories among those that blocks can have keeps all of this
-/

namespace BlockScript

/-- A block with a ring drawn around it. -/
def Block.withRing (b : Block) : Block := { b with attrs := { b.attrs with ringed := true } }

namespace Piece

/-- Rings around pieces are rings around the `blocks` among them. -/
theorem blocks_map_ring (ps : List Piece) :
    blocks (ps.map ring) = (blocks ps).map Block.withRing := by
  induction ps with
  | nil => rfl
  | cons p ps ih =>
    cases p with
    | text t => exact ih
    | block a qs => rw [List.map_cons, ring, blocks, ih, blocks, List.map_cons, Block.withRing]

/-- A change of attributes reaches the `blocks` among pieces. -/
theorem blocks_mapAttrsList (f : Attrs → Attrs) (ps : List Piece) :
    blocks (mapAttrsList f ps) = (blocks ps).map (Block.mapAttrs f) := by
  induction ps with
  | nil => rfl
  | cons p ps ih =>
    cases p with
    | text t => rw [mapAttrsList, mapAttrs, blocks, ih, blocks]
    | block a qs => rw [mapAttrsList, mapAttrs, blocks, ih, blocks, List.map_cons, Block.mapAttrs]

end Piece

namespace Block

section

variable {b : Block} {ps : List Piece}
  (hpieces : b.pieces = if b.attrs.flag = some .ring then ps.map Piece.ring else ps)

include hpieces

/-- The `arguments` of a block whose flag may ask for rings are the blocks among the pieces, with rings or
    without. -/
theorem arguments_of_rings :
    b.arguments = (Piece.blocks ps).map fun c => if b.attrs.flag = some .ring then c.withRing else c := by
  rw [arguments, hpieces]
  split
  · exact Piece.blocks_map_ring ps
  · exact (List.map_id _).symm

/-- If there have been no rings before, there are some just if the `flag` asks for them. -/
theorem ringed_of_rings (hringed : ∀ c ∈ Piece.blocks ps, c.attrs.ringed = false) :
    ∀ c ∈ b.arguments, c.attrs.ringed = true ↔ b.attrs.flag = some .ring := by
  intro c hc
  rw [arguments_of_rings hpieces, List.mem_map] at hc
  obtain ⟨c₀, hc₀, rfl⟩ := hc
  split
  · rename_i hflag
    simp [withRing, hflag]
  · rename_i hflag
    simp [hringed c₀ hc₀, hflag]

end

/-! ## Kinds -/

/-- What a block of a script can be. -/
inductive Kind where
  /-- Text in an argument. -/
  | insert
  /-- A comment that stands on its own. -/
  | comment
  /-- The pattern in the header of a defined block. -/
  | outline
  /-- A block that does something or has a value, and the header of a defined block. -/
  | proper
  deriving DecidableEq

/-- The shapes of blocks proper: those that words can give, and that of a header. -/
def properShapes : List Shape := Override.shapes ++ [.defineHat]

/-- Whether a block is an insert: one text in the shape of an insert, and nothing else is known of it. -/
structure IsInsertKind (b : Block) : Prop where
  category : b.attrs.category = none
  id : b.attrs.id = none
  flag : b.attrs.flag = none
  shape : ∃ shape, b.attrs.shape = some shape ∧ shape.isInsert = true
  pieces : ∃ t, b.pieces = [.text t]

/-- Whether a block is a comment that stands on its own. -/
structure IsCommentKind (b : Block) : Prop where
  category : b.attrs.category = none
  id : b.attrs.id = some "//".toList
  flag : b.attrs.flag = none
  pieces : b.pieces = []

/-- Whether a block is the outline of a defined block. -/
structure IsOutlineKind (b : Block) : Prop where
  category : b.attrs.category = none
  id : b.attrs.id = none
  flag : b.attrs.flag = none
  shape : b.attrs.shape = some .outline

/-- Whether a block is a block proper. -/
structure IsProperKind (b : Block) : Prop where
  category : ∃ category ∈ Category.standard, b.attrs.category = some category
  shape : ∃ shape ∈ properShapes, b.attrs.shape = some shape
  flag : ∀ flag, b.attrs.flag = some flag → flag ∈ Flag.standard

/-- Whether a block is of a kind. -/
def IsOf (b : Block) : Kind → Prop
  | .insert => b.IsInsertKind
  | .comment => b.IsCommentKind
  | .outline => b.IsOutlineKind
  | .proper => b.IsProperKind

/-- What is in a category is a block `proper`, if anything. -/
private theorem IsOf.eq_proper {b : Block} {k : Kind} (h : b.IsOf k) (hcategory : b.attrs.category ≠ none) :
    k = .proper := by
  cases k with
  | insert => exact absurd (IsInsertKind.category h) hcategory
  | comment => exact absurd (IsCommentKind.category h) hcategory
  | outline => exact absurd (IsOutlineKind.category h) hcategory
  | proper => rfl

/-- And a block proper is in a `category`. -/
theorem IsProperKind.category_ne_none {b : Block} (h : b.IsProperKind) : b.attrs.category ≠ none := by
  obtain ⟨category, -, hcategory⟩ := h.category
  simp [hcategory]

/-- What has the name of comments and no category is a comment, if anything. -/
private theorem IsOf.eq_comment {b : Block} {k : Kind} (h : b.IsOf k) (hb : b.IsCommentKind) :
    k = .comment := by
  cases k with
  | insert => exact absurd (hb.id.symm.trans (IsInsertKind.id h)) (by simp)
  | comment => rfl
  | outline => exact absurd (hb.id.symm.trans (IsOutlineKind.id h)) (by simp)
  | proper => exact absurd hb.category (IsProperKind.category_ne_none h)

/-- The shapes of inserts and of outlines differ. -/
private theorem not_isOutlineKind_of_isInsertKind {b : Block} (h : b.IsInsertKind) :
    ¬ b.IsOutlineKind := by
  intro houtline
  obtain ⟨shape, hshape, hinsert⟩ := h.shape
  obtain rfl : shape = .outline := Option.some.inj (hshape.symm.trans houtline.shape)
  exact absurd hinsert (by decide)

/-- Nothing `IsOf` two kinds. -/
theorem IsOf.unique {b : Block} {k k' : Kind} (h : b.IsOf k) (h' : b.IsOf k') : k = k' := by
  -- a category tells blocks proper from the rest, a name comments, and a shape outlines from inserts
  cases k with
  | proper => exact (h'.eq_proper (IsProperKind.category_ne_none h)).symm
  | comment => exact (h'.eq_comment h).symm
  | insert =>
    cases k' with
    | insert => rfl
    | comment => exact h.eq_comment h'
    | outline => exact absurd h' (not_isOutlineKind_of_isInsertKind h)
    | proper => exact h.eq_proper (IsProperKind.category_ne_none h')
  | outline =>
    cases k' with
    | insert => exact absurd h (not_isOutlineKind_of_isInsertKind h')
    | comment => exact h.eq_comment h'
    | outline => rfl
    | proper => exact h.eq_proper (IsProperKind.category_ne_none h')

/-- What `IsOf` a kind is of just one. -/
theorem IsOf.existsUnique {b : Block} {k : Kind} (h : b.IsOf k) : ∃! k, b.IsOf k :=
  ⟨k, h, fun _ h' => h'.unique h⟩

/-! ## What is nested in what -/

/-- Whether a block may hold another one directly. Inserts are held by blocks proper alone, and an outline by
    a header, of which it is the second of two pieces. Comments are not held at all. What is held has a ring
    just if the block that holds it has that flag. -/
structure Holds (b c : Block) : Prop where
  kind : c.IsOf .proper ∨ (c.IsOf .insert ∧ b.IsOf .proper) ∨
    (c.IsOf .outline ∧ b.attrs.shape = some .defineHat ∧ ∃ t, b.pieces = [.text t, c.toPiece])
  ringed : c.attrs.ringed = true ↔ b.attrs.flag = some .ring

/-- A block in which everything, itself included, is of just one kind and stands where it may. -/
def Classified (b : Block) : Prop :=
  ∀ c ∈ b.within, (∃! k, c.IsOf k) ∧ ∀ d ∈ c.arguments, c.Holds d

/-- A block is `Classified` if it is of a kind, holds what it may, and all that it holds is classified. -/
theorem classified_iff (b : Block) :
    b.Classified ↔ ((∃! k, b.IsOf k) ∧ ∀ d ∈ b.arguments, b.Holds d) ∧
      ∀ c ∈ b.arguments, c.Classified := by
  rw [Classified, within, List.forall_mem_cons, ← flatMap_within_blocks]
  refine and_congr_right fun _ => ⟨fun h c hc d hd => ?_, fun h d hd => ?_⟩
  · exact h d (List.mem_flatMap.2 ⟨c, hc, hd⟩)
  · obtain ⟨c, hc, hd⟩ := List.mem_flatMap.1 hd
    exact h c hc d hd

/-- A block that holds nothing is `Classified` if it is of a kind. -/
theorem classified_of_arguments_eq_nil {b : Block} {k : Kind} (h : b.IsOf k) (hnone : b.arguments = []) :
    b.Classified := by
  rw [classified_iff, hnone]
  exact ⟨⟨h.existsUnique, by simp⟩, by simp⟩

/-- Whether a block holds what it holds depends on its `pieces`, its `flag`, and the kind that it is of; a
    header has to stay one. -/
theorem Classified.congr {b b' : Block} (h : b.Classified) (hpieces : b'.pieces = b.pieces)
    (hflag : b'.attrs.flag = b.attrs.flag)
    (hshape : b.attrs.shape = some .defineHat → b'.attrs.shape = some .defineHat)
    {k : Kind} (hb : b.IsOf k) (hb' : b'.IsOf k) : b'.Classified := by
  rw [classified_iff] at h ⊢
  have harguments : b'.arguments = b.arguments := by rw [arguments, hpieces, arguments]
  rw [harguments]
  refine ⟨⟨hb'.existsUnique, fun d hd => ?_⟩, h.2⟩
  obtain ⟨hkind, hringed⟩ := h.1.2 d hd
  refine ⟨?_, by rw [hflag]; exact hringed⟩
  rcases hkind with hproper | ⟨hinsert, hproper⟩ | ⟨houtline, hheader, hpair⟩
  · -- blocks proper may stand anywhere
    exact .inl hproper
  · -- what holds an insert is a block proper and stays one
    obtain rfl := hb.unique hproper
    exact .inr (.inl ⟨hinsert, hb'⟩)
  · -- an outline is held by a header, which stays one
    exact .inr (.inr ⟨houtline, hshape hheader, by rw [hpieces]; exact hpair⟩)

/-! ## Rings -/

/-- A ring plays no part in the kind of a block: `withRing` it is of the same one. -/
theorem IsOf.withRing {b : Block} {k : Kind} (h : b.IsOf k) : b.withRing.IsOf k := by
  cases k with
  | insert => exact ⟨h.category, h.id, h.flag, h.shape, h.pieces⟩
  | comment => exact ⟨h.category, h.id, h.flag, h.pieces⟩
  | outline => exact ⟨h.category, h.id, h.flag, h.shape⟩
  | proper => exact ⟨h.category, h.shape, h.flag⟩

/-- So a block with a ring around it stays `Classified`: what it holds is the same. -/
theorem Classified.withRing {b : Block} (h : b.Classified) : b.withRing.Classified := by
  obtain ⟨k, hk, -⟩ := ((classified_iff b).1 h).1.1
  exact h.congr rfl rfl (fun hshape => hshape) hk hk.withRing

/-! ## Changes of categories -/

/-- Whether a change of attributes moves blocks from category to category, and nothing into a category that
    is in none. -/
structure Recolours (f : Attrs → Attrs) : Prop where
  other : ∀ a, f a = { a with category := (f a).category }
  none : ∀ a, a.category = none → (f a).category = none
  standard : ∀ a, ∀ c ∈ Category.standard, a.category = some c →
    ∃ c' ∈ Category.standard, (f a).category = some c'

section

variable {f : Attrs → Attrs} (hf : Recolours f)

include hf

/-- A change that `Recolours` leaves the shape as it is. -/
theorem Recolours.shape (b : Block) : (b.mapAttrs f).attrs.shape = b.attrs.shape := by
  rw [mapAttrs, hf.other]

/-- It leaves the `flag` as it is. -/
theorem Recolours.flag (b : Block) : (b.mapAttrs f).attrs.flag = b.attrs.flag := by
  rw [mapAttrs, hf.other]

/-- A function that `Recolours` leaves the name of a block as it is. -/
theorem Recolours.id (b : Block) : (b.mapAttrs f).attrs.id = b.attrs.id := by
  rw [mapAttrs, hf.other]

/-- A function that `Recolours` leaves the ring of a block as it is. -/
theorem Recolours.ringed (b : Block) : (b.mapAttrs f).attrs.ringed = b.attrs.ringed := by
  rw [mapAttrs, hf.other]

/-- What `Recolours` leaves the kind of a block as it is. -/
theorem IsOf.mapAttrs {b : Block} {k : Kind} (h : b.IsOf k) : (b.mapAttrs f).IsOf k := by
  -- only the category can change, and it stays one of those that the kind has
  cases k with
  -- an insert has no category to change, and one text
  | insert =>
    obtain ⟨t, ht⟩ := IsInsertKind.pieces h
    refine ⟨hf.none _ h.category, ?_, ?_, ?_, t, ?_⟩
    · rw [hf.id, h.id]
    · rw [hf.flag, h.flag]
    · rw [hf.shape]
      exact h.shape
    · simp [Block.mapAttrs, ht, Piece.mapAttrsList, Piece.mapAttrs]
  | comment =>
    refine ⟨hf.none _ h.category, ?_, ?_, ?_⟩
    · rw [hf.id, h.id]
    · rw [hf.flag, h.flag]
    · simp [Block.mapAttrs, h.pieces, Piece.mapAttrsList]
  | outline =>
    refine ⟨hf.none _ h.category, ?_, ?_, ?_⟩
    · rw [hf.id, h.id]
    · rw [hf.flag, h.flag]
    · rw [hf.shape, h.shape]
  -- a block proper is moved to another category that blocks can have
  | proper =>
    obtain ⟨c, hc, hcategory⟩ := IsProperKind.category h
    refine ⟨hf.standard _ c hc hcategory, ?_, ?_⟩
    · rw [hf.shape]
      exact h.shape
    · rw [hf.flag]
      exact h.flag

/-- Recoloured blocks stand in the relation `Holds` as before. -/
theorem Holds.mapAttrs {b c : Block} (h : b.Holds c) : (b.mapAttrs f).Holds (c.mapAttrs f) := by
  refine ⟨?_, ?_⟩
  · rcases h.kind with hproper | ⟨hinsert, hproper⟩ | ⟨houtline, hheader, t, hpair⟩
    · exact .inl (hproper.mapAttrs hf)
    · exact .inr (.inl ⟨hinsert.mapAttrs hf, hproper.mapAttrs hf⟩)
    · refine .inr (.inr ⟨houtline.mapAttrs hf, by rw [hf.shape, hheader], t, ?_⟩)
      simp [Block.mapAttrs, hpair, Block.toPiece, Piece.mapAttrsList, Piece.mapAttrs]
  · rw [hf.ringed, hf.flag]
    exact h.ringed

/-- A block that is `Classified` stays so when it is recoloured. -/
theorem Classified.mapAttrs {b : Block} (h : b.Classified) : (b.mapAttrs f).Classified := by
  intro c hc
  rw [within_mapAttrs, List.mem_map] at hc
  obtain ⟨c, hc, rfl⟩ := hc
  obtain ⟨⟨k, hk, -⟩, hholds⟩ := h c hc
  refine ⟨(hk.mapAttrs hf).existsUnique, fun d hd => ?_⟩
  -- what is held has been recoloured with the block
  have hd : d ∈ Piece.blocks (Piece.mapAttrsList f c.pieces) := hd
  rw [Piece.blocks_mapAttrsList, List.mem_map] at hd
  obtain ⟨d₀, hd₀, rfl⟩ := hd
  exact (hholds d₀ hd₀).mapAttrs hf

end

end Block

end BlockScript
