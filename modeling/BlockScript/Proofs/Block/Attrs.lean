import BlockScript.Block.Basic

/-!
# The attributes inside a block

A block holds attributes at any depth: its own, and those of everything nested in it. They are listed
in the order of the text, so that a change of attributes changes the list entry by entry.

## Key results

- `Block.allAttrs_mapAttrs`: a change of attributes reaches each entry, and nothing else
- `Block.mapAttrs_mapAttrs`: one change after another is a single change
- `Block.mapAttrs_eq_iff`: two changes come to the same if they do to each entry
-/

namespace BlockScript

namespace Piece

mutual

/-- The attributes of a piece and of everything nested in it. -/
def allAttrs : Piece → List Attrs
  | .text _ => []
  | .block a ps => a :: allAttrsList ps

/-- The attributes of all blocks in a list of pieces, at any depth. -/
def allAttrsList : List Piece → List Attrs
  | [] => []
  | p :: ps => allAttrs p ++ allAttrsList ps

end

/-- The companion for lists of pieces goes piece by piece. -/
private theorem allAttrsList_eq_flatMap (ps : List Piece) : allAttrsList ps = ps.flatMap allAttrs := by
  induction ps with
  | nil => rfl
  | cons p ps ih => simp [allAttrsList, ih]

@[simp] theorem allAttrs_text (t : Text) : allAttrs (.text t) = [] := by rw [allAttrs]

@[simp] theorem allAttrs_block (a : Attrs) (ps : List Piece) :
    allAttrs (.block a ps) = a :: ps.flatMap allAttrs := by
  rw [allAttrs, allAttrsList_eq_flatMap]

mutual

/-- A change of attributes by `mapAttrs` reaches every attribute record of a piece. -/
theorem allAttrs_mapAttrs (f : Attrs → Attrs) :
    ∀ p : Piece, (p.mapAttrs f).allAttrs = p.allAttrs.map f
  | .text _ => by rw [mapAttrs, allAttrs, List.map_nil]
  | .block a ps => by
    rw [mapAttrs, allAttrs, allAttrsList_mapAttrsList f ps, allAttrs, List.map_cons]

/-- `mapAttrsList` maps over `allAttrsList` too. -/
private theorem allAttrsList_mapAttrsList (f : Attrs → Attrs) :
    ∀ ps : List Piece, allAttrsList (mapAttrsList f ps) = (allAttrsList ps).map f
  | [] => rfl
  | p :: ps => by
    rw [mapAttrsList, allAttrsList, allAttrs_mapAttrs f p, allAttrsList_mapAttrsList f ps,
      allAttrsList, List.map_append]

end

mutual

/-- One `mapAttrs` after another is a single one. -/
theorem mapAttrs_mapAttrs (g f : Attrs → Attrs) :
    ∀ p : Piece, (p.mapAttrs f).mapAttrs g = p.mapAttrs (g ∘ f)
  | .text _ => by rw [mapAttrs, mapAttrs, mapAttrs]
  | .block a ps => by
    rw [mapAttrs, mapAttrs, mapAttrsList_mapAttrsList g f ps, mapAttrs, Function.comp_apply]

/-- `mapAttrsList` twice is `mapAttrsList` with the one change after the other. -/
theorem mapAttrsList_mapAttrsList (g f : Attrs → Attrs) :
    ∀ ps : List Piece, mapAttrsList g (mapAttrsList f ps) = mapAttrsList (g ∘ f) ps
  | [] => rfl
  | p :: ps => by
    rw [mapAttrsList, mapAttrsList, mapAttrs_mapAttrs g f p, mapAttrsList_mapAttrsList g f ps,
      mapAttrsList]

end

mutual

/-- A change of attributes by `id` leaves a piece as it is. -/
theorem mapAttrs_id : ∀ p : Piece, p.mapAttrs id = p
  | .text _ => by rw [mapAttrs]
  | .block a ps => by rw [mapAttrs, mapAttrsList_id ps, id_eq]

/-- `mapAttrsList id` changes no piece. -/
theorem mapAttrsList_id : ∀ ps : List Piece, mapAttrsList id ps = ps
  | [] => rfl
  | p :: ps => by rw [mapAttrsList, mapAttrs_id p, mapAttrsList_id ps]

end

section

variable {f g : Attrs → Attrs}

mutual

/-- Two changes come to the same if they do to each attribute record of a piece. -/
private theorem mapAttrs_congr : ∀ p : Piece, (∀ a ∈ p.allAttrs, f a = g a) → p.mapAttrs f = p.mapAttrs g
  | .text _, _ => by rw [mapAttrs, mapAttrs]
  | .block a ps, h => by
    rw [allAttrs, List.forall_mem_cons] at h
    rw [mapAttrs, mapAttrs, h.1, mapAttrsList_congr ps h.2]

/-- Or of the pieces of a list. -/
private theorem mapAttrsList_congr : ∀ ps : List Piece, (∀ a ∈ allAttrsList ps, f a = g a) →
    mapAttrsList f ps = mapAttrsList g ps
  | [], _ => rfl
  | p :: ps, h => by
    rw [allAttrsList, List.forall_mem_append] at h
    rw [mapAttrsList, mapAttrsList, mapAttrs_congr p h.1, mapAttrsList_congr ps h.2]

end

end

/-- A `ring` around a piece changes none of the given data of attributes if it does not look at the ring. -/
theorem filterMap_allAttrs_ring {α : Type} (g : Attrs → Option α)
    (hg : ∀ a : Attrs, g { a with ringed := true } = g a) (p : Piece) :
    p.ring.allAttrs.filterMap g = p.allAttrs.filterMap g := by
  cases p with
  | text t => rfl
  | block a ps => simp [ring, List.filterMap_cons, hg]

end Piece

namespace Block

/-- The attributes of a block and of everything nested in it. -/
def allAttrs (b : Block) : List Attrs := b.attrs :: b.pieces.flatMap Piece.allAttrs

/-- A block has `allAttrs` that it has as a piece. -/
theorem allAttrs_toPiece (b : Block) : b.toPiece.allAttrs = b.allAttrs := by
  rw [toPiece, Piece.allAttrs_block, allAttrs]

/-- `mapAttrs` reaches every attribute record of a block. -/
theorem allAttrs_mapAttrs (f : Attrs → Attrs) (b : Block) :
    (b.mapAttrs f).allAttrs = b.allAttrs.map f := by
  simp only [allAttrs, mapAttrs, List.map_cons, ← Piece.allAttrsList_eq_flatMap,
    Piece.allAttrsList_mapAttrsList]

/-- Two changes by `mapAttrs` come to the same just if they do to each attribute record of a block. -/
theorem mapAttrs_eq_iff {f g : Attrs → Attrs} {b : Block} :
    b.mapAttrs f = b.mapAttrs g ↔ ∀ a ∈ b.allAttrs, f a = g a := by
  constructor
  · intro h
    have hattrs := congrArg allAttrs h
    rwa [allAttrs_mapAttrs, allAttrs_mapAttrs, List.map_inj_left] at hattrs
  · intro h
    rw [allAttrs, List.forall_mem_cons, ← Piece.allAttrsList_eq_flatMap] at h
    rw [mapAttrs, mapAttrs, h.1, Piece.mapAttrsList_congr _ h.2]

/-- `allAttrs` of the pieces in a list are those of the blocks in it. -/
theorem flatMap_allAttrs_blocks (ps : List Piece) :
    (Piece.blocks ps).flatMap allAttrs = ps.flatMap Piece.allAttrs := by
  induction ps with
  | nil => rfl
  | cons p ps ih =>
    cases p with
    | text t => simpa [Piece.blocks] using ih
    | block a qs => simp [Piece.blocks, allAttrs, ih]

/-- One change by `mapAttrs` after another is a single change. -/
theorem mapAttrs_mapAttrs (g f : Attrs → Attrs) (b : Block) :
    (b.mapAttrs f).mapAttrs g = b.mapAttrs (g ∘ f) := by
  simp only [mapAttrs, Piece.mapAttrsList_mapAttrsList, Function.comp_apply]

/-- A change of attributes by `id` leaves a block as it is. -/
theorem mapAttrs_id (b : Block) : b.mapAttrs id = b := by
  simp only [mapAttrs, Piece.mapAttrsList_id, id_eq]

end Block

end BlockScript
