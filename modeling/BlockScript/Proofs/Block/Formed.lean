import BlockScript.Block.Render
import BlockScript.Script.Listing
import BlockScript.Proofs.Script.Forest

/-!
# What can be written

A few parts of blocks are looked at without a question whether they are there: the keyword and the outline
of a header, the name of a parameter, the text of an insert, the flag behind which a note is written, and
the text of a comment that stands on its own. A block is *formed* if it has these parts. What is formed at
every depth can be written, and so can be scripts of such blocks.

## Key results

- `Block.render_isOk`: a block that is formed at every depth can be written
- `Listing.ofScripts_isOk`: scripts of such blocks have a listing, if their comments have texts
- `Block.AllFormed.mapAttrs`: a change of categories keeps blocks formed
-/

namespace BlockScript

/-! ## Blocks at any depth -/

namespace Piece

mutual

/-- The blocks in a piece, at any depth, outside in. -/
def within : Piece → List Block
  | .text _ => []
  | .block a ps => ⟨a, ps⟩ :: withinList ps

/-- The blocks in a list of pieces, at any depth. -/
def withinList : List Piece → List Block
  | [] => []
  | p :: ps => within p ++ withinList ps

end

/-- The companion for lists of pieces goes piece by piece. -/
private theorem withinList_eq_flatMap (ps : List Piece) : withinList ps = ps.flatMap within := by
  induction ps with
  | nil => rfl
  | cons p ps ih => simp [withinList, ih]

@[simp] theorem within_text (t : Text) : within (.text t) = [] := by rw [within]

@[simp] theorem within_block (a : Attrs) (ps : List Piece) :
    within (.block a ps) = ⟨a, ps⟩ :: ps.flatMap within := by
  rw [within, withinList_eq_flatMap]

mutual

/-- A change by `mapAttrs` reaches the blocks at every depth. -/
theorem within_mapAttrs (f : Attrs → Attrs) :
    ∀ p : Piece, (p.mapAttrs f).within = p.within.map (Block.mapAttrs f)
  | .text _ => by rw [mapAttrs, within, List.map_nil]
  | .block a ps => by
    rw [mapAttrs, within, withinList_mapAttrsList f ps, within, List.map_cons, Block.mapAttrs]

/-- `mapAttrsList` changes each of the blocks of `withinList`. -/
private theorem withinList_mapAttrsList (f : Attrs → Attrs) :
    ∀ ps : List Piece, withinList (mapAttrsList f ps) = (withinList ps).map (Block.mapAttrs f)
  | [] => rfl
  | p :: ps => by
    rw [mapAttrsList, withinList, within_mapAttrs f p, withinList_mapAttrsList f ps, withinList,
      List.map_append]

end

/-- The `blocks` among pieces are pieces, and all that are blocks. -/
theorem mem_blocks_iff {b : Block} {ps : List Piece} : b ∈ blocks ps ↔ b.toPiece ∈ ps := by
  induction ps with
  | nil => simp [blocks]
  | cons p ps ih =>
    cases p with
    | text t => simp [blocks, ih, Block.toPiece]
    | block a qs =>
      obtain ⟨a', qs'⟩ := b
      simp [blocks, ih, Block.toPiece]

/-- A change of attributes reaches the `arguments`, and what is an argument stays one. -/
private theorem arguments_mapAttrsList (f : Attrs → Attrs) (ps : List Piece) :
    arguments (mapAttrsList f ps) = (arguments ps).map (mapAttrs f) := by
  have hkept : isArgument ∘ mapAttrs f = isArgument := by
    funext p
    cases p <;> simp [mapAttrs, isArgument]
  rw [mapAttrsList_eq_map, arguments, List.filter_map, hkept, arguments]

end Piece

namespace Block

/-- A block and the blocks in it, at any depth. -/
def within (b : Block) : List Block := b :: b.pieces.flatMap Piece.within

/-- `toPiece` makes a piece of a block, and of no other one the same. -/
theorem toPiece_injective {b c : Block} (h : b.toPiece = c.toPiece) : b = c := by
  obtain ⟨a, ps⟩ := b
  obtain ⟨a', qs⟩ := c
  cases h
  rfl

/-- `mapAttrs` reaches the block and all blocks `within` it. -/
theorem within_mapAttrs (f : Attrs → Attrs) (b : Block) :
    (b.mapAttrs f).within = b.within.map (mapAttrs f) := by
  simp only [within, mapAttrs, List.map_cons, ← Piece.withinList_eq_flatMap,
    Piece.withinList_mapAttrsList]

/-- The blocks `within` pieces are those in the blocks among them. -/
theorem flatMap_within_blocks (ps : List Piece) :
    (Piece.blocks ps).flatMap within = ps.flatMap Piece.within := by
  induction ps with
  | nil => rfl
  | cons p ps ih =>
    cases p with
    | text t => simpa [Piece.blocks] using ih
    | block a qs => simp [Piece.blocks, within, ih]

/-! ## Formed blocks -/

/-- A block with the parts that its attributes stand for: a header has a keyword and an outline, in which
    each argument is a parameter with a name, an insert is one text, and where the end of a script is
    noted there is a flag. -/
structure Formed (b : Block) : Prop where
  header : b.attrs.shape = some .defineHat → ∃ keyword outline params,
    b.pieces = [.text keyword, .block outline params] ∧
      ∀ p ∈ Piece.arguments params, ∃ a name, p = .block a [.text name]
  insert : ∀ shape, b.attrs.shape = some shape → shape.isInsert = true →
    ∃ t, b.pieces = [.text t]
  note : b.attrs.capEnd = true → b.attrs.flag ≠ none

/-- A block that is formed at every depth. -/
def AllFormed (b : Block) : Prop := ∀ c ∈ b.within, c.Formed

/-- Blocks of the other shapes are `Formed` whatever their pieces are. -/
theorem formed_of_shape {b : Block} (hheader : b.attrs.shape ≠ some .defineHat)
    (hinsert : ∀ shape, b.attrs.shape = some shape → shape.isInsert = false)
    (hnote : b.attrs.capEnd = true → b.attrs.flag ≠ none) : b.Formed := by
  refine ⟨fun h => absurd h hheader, fun shape h hshape => ?_, hnote⟩
  simp [hinsert shape h] at hshape

/-- A block is formed at every depth if it is formed and the blocks among its `pieces` are. -/
theorem allFormed_iff (b : Block) :
    b.AllFormed ↔ b.Formed ∧ ∀ c ∈ Piece.blocks b.pieces, c.AllFormed := by
  rw [AllFormed, within, List.forall_mem_cons, ← flatMap_within_blocks]
  refine and_congr_right fun _ => ⟨fun h c hc d hd => ?_, fun h d hd => ?_⟩
  · exact h d (List.mem_flatMap.2 ⟨c, hc, hd⟩)
  · obtain ⟨c, hc, hd⟩ := List.mem_flatMap.1 hd
    exact h c hc d hd

/-- Whether a block is `Formed` depends on its pieces, its shape, its flag and its mark. -/
theorem Formed.congr {b b' : Block} (h : b.Formed) (hpieces : b'.pieces = b.pieces)
    (hshape : b'.attrs.shape = b.attrs.shape)
    (hnote : b'.attrs.capEnd = true → b'.attrs.flag ≠ none) : b'.Formed := by
  constructor
  · rw [hshape, hpieces]
    exact h.header
  · rw [hshape, hpieces]
    exact h.insert
  · exact hnote

/-- `AllFormed` depends on the same: inside there are the same blocks. -/
theorem AllFormed.congr {b b' : Block} (h : b.AllFormed) (hpieces : b'.pieces = b.pieces)
    (hshape : b'.attrs.shape = b.attrs.shape)
    (hnote : b'.attrs.capEnd = true → b'.attrs.flag ≠ none) : b'.AllFormed := by
  rw [allFormed_iff] at h ⊢
  rw [hpieces]
  exact ⟨h.1.congr hpieces hshape hnote, h.2⟩

/-- A change of categories keeps a block `Formed`. -/
theorem Formed.mapAttrs {b : Block} (h : b.Formed) {f : Attrs → Attrs}
    (hf : ∀ a, f a = { a with category := (f a).category }) : (b.mapAttrs f).Formed := by
  have hshape : (f b.attrs).shape = b.attrs.shape := by rw [hf]
  -- neither the shape nor the number of pieces changes
  have hpieces : (b.mapAttrs f).pieces = b.pieces.map (Piece.mapAttrs f) :=
    Piece.mapAttrsList_eq_map f b.pieces
  constructor
  · -- a header keeps its keyword, its outline and the names of its parameters
    intro hheader
    have hheader₀ : b.attrs.shape = some .defineHat := hshape.symm.trans hheader
    obtain ⟨keyword, outline, params, hb, hparams⟩ := h.header hheader₀
    refine ⟨keyword, f outline, Piece.mapAttrsList f params, ?_, ?_⟩
    · rw [hpieces, hb]
      simp [Piece.mapAttrs]
    · intro p hp
      rw [Piece.arguments_mapAttrsList, List.mem_map] at hp
      obtain ⟨p₀, hp₀, rfl⟩ := hp
      obtain ⟨a, name, rfl⟩ := hparams p₀ hp₀
      exact ⟨f a, name, by simp [Piece.mapAttrs, Piece.mapAttrsList]⟩
  · -- an insert keeps its text
    intro shape hinsert hisInsert
    have hinsert₀ : b.attrs.shape = some shape := hshape.symm.trans hinsert
    obtain ⟨t, ht⟩ := h.insert shape hinsert₀ hisInsert
    refine ⟨t, ?_⟩
    rw [hpieces, ht]
    simp [Piece.mapAttrs]
  · -- the flag and the mark are not changed
    show (f b.attrs).capEnd = true → (f b.attrs).flag ≠ none
    rw [hf]
    exact h.note

/-- And at every depth a block stays so, for `AllFormed`. -/
theorem AllFormed.mapAttrs {b : Block} (h : b.AllFormed) {f : Attrs → Attrs}
    (hf : ∀ a, f a = { a with category := (f a).category }) : (b.mapAttrs f).AllFormed := by
  intro c hc
  rw [within_mapAttrs] at hc
  obtain ⟨c₀, hc₀, rfl⟩ := List.mem_map.1 hc
  exact (h c₀ hc₀).mapAttrs hf

/-- A block that can be written on a line of its own: it is formed at every depth, and if it is a comment
    it has a text. -/
structure Writable (b : Block) : Prop where
  formed : b.AllFormed
  comment : b.isComment = true → b.attrs.comment ≠ none

/-- And the text of a comment stays, so a `Writable` block stays one. -/
theorem Writable.mapAttrs {b : Block} (h : b.Writable) {f : Attrs → Attrs}
    (hf : ∀ a, f a = { a with category := (f a).category }) : (b.mapAttrs f).Writable := by
  refine ⟨h.formed.mapAttrs hf, ?_⟩
  show ((f b.attrs).id == some "//".toList) = true → (f b.attrs).comment ≠ none
  rw [hf]
  exact h.comment

end Block

/-! ## Writing -/

/-- `Written.join` gives a text if all that is joined are texts. -/
private theorem Written.join_isOk {ws : List Written} (h : ∀ w ∈ ws, ∃ t, w = .ok t) :
    ∃ t, join ws = .ok t := by
  induction ws with
  | nil => exact ⟨[], rfl⟩
  | cons w ws ih =>
    obtain ⟨⟨t, rfl⟩, hws⟩ := List.forall_mem_cons.1 h
    obtain ⟨t', ht'⟩ := ih hws
    exact ⟨t ++ t', by simp [join, ht', Except.map]⟩

/-- The companion for lists of pieces writes piece by piece. -/
private theorem Piece.renderList_eq_map (image : Option Text) (ps : List Piece) :
    renderList image ps = ps.map (render image) := by
  induction ps with
  | nil => rfl
  | cons p ps ih => simp [renderList, ih]

/-- A `Formed` block can be written if its pieces can. -/
private theorem renderWith_isOk {a : Attrs} {ps : List Piece} (h : Block.Formed ⟨a, ps⟩)
    {image : Option Text} (hps : ∀ p ∈ ps, ∃ t, p.render image = .ok t) :
    ∃ t, renderWith a ps (Piece.renderList image ps) = .ok t := by
  -- by cases of how a block is written: as an insert, as a header, or piece by piece
  by_cases hinsert : a.category = none ∧ ∃ t, ps = [.text t]
  · obtain ⟨hcategory, t, rfl⟩ := hinsert
    exact ⟨renderInsert a.shape t, by simp [renderWith, hcategory]⟩
  · rw [renderWith.eq_2 a _ _ fun t hcategory hps => hinsert ⟨hcategory, t, hps⟩]
    split
    · -- a header is written as its keyword and its outline
      rename_i hheader
      obtain ⟨keyword, outline, params, hpieces, -⟩ := h.header hheader
      obtain rfl : ps = [.text keyword, .block outline params] := hpieces
      obtain ⟨t, ht⟩ := hps (.block outline params) (by simp)
      exact ⟨keyword ++ ' ' :: t, by simp [Piece.renderList, renderHeader, ht, Except.map]⟩
    · -- all other blocks are written piece by piece
      have hall : ∀ w ∈ Piece.renderList image ps, ∃ t, w = .ok t := by
        rw [Piece.renderList_eq_map]
        intro w hw
        obtain ⟨p, hp, rfl⟩ := List.mem_map.1 hw
        exact hps p hp
      obtain ⟨t, ht⟩ := Written.join_isOk hall
      exact ⟨a.enclose t, by rw [ht]; rfl⟩

mutual

/-- A piece can be written if all blocks `within` it are formed. -/
theorem Piece.render_isOk (image : Option Text) :
    ∀ p : Piece, (∀ c ∈ p.within, c.Formed) → ∃ t, p.render image = .ok t
  | .text t, _ => ⟨_, by rw [render]⟩
  | .block a ps, h => by
    rw [within, List.forall_mem_cons] at h
    rw [render]
    exact renderWith_isOk h.1 (Piece.renderList_isOk a.image ps h.2)

/-- A list of pieces can be rendered if each block of `withinList` is `Formed`. -/
private theorem Piece.renderList_isOk (image : Option Text) :
    ∀ ps : List Piece, (∀ c ∈ withinList ps, c.Formed) →
      ∀ p ∈ ps, ∃ t, p.render image = .ok t
  | [], _ => by simp
  | p :: ps, h => by
    rw [withinList, List.forall_mem_append] at h
    rw [List.forall_mem_cons]
    exact ⟨Piece.render_isOk image p h.1, Piece.renderList_isOk image ps h.2⟩

end

/-- `render` can write a block that is `AllFormed`. -/
theorem Block.render_isOk {b : Block} (h : b.AllFormed) : ∃ t, b.render = .ok t := by
  rw [AllFormed, within, List.forall_mem_cons, ← Piece.withinList_eq_flatMap] at h
  exact renderWith_isOk h.1 (Piece.renderList_isOk b.attrs.image b.pieces h.2)

/-- A `Writable` block has a line in a listing, at any depth. -/
private theorem Block.listing_isOk {b : Block} (h : b.Writable) (depth : Nat) :
    ∃ t, b.listing depth = .ok t := by
  unfold listing
  split
  · rename_i hb
    -- a comment on its own is written by its text, and any other block by its pieces
    obtain ⟨c, hc⟩ := Option.ne_none_iff_exists'.1 (h.comment hb)
    rw [hc]
    exact ⟨_, rfl⟩
  · -- an implied end has a line of its own, and other blocks are rendered
    unfold heading
    split
    · exact ⟨_, rfl⟩
    · obtain ⟨t, ht⟩ := render_isOk h.formed
      rw [ht]
      exact ⟨_, rfl⟩

mutual

/-- The lines of a node are those of the blocks in it. -/
private theorem Node.mem_listing {w : Written} (depth : Nat) :
    ∀ n : Node, w ∈ n.listing depth → ∃ b ∈ n.blocks, ∃ d, w = b.listing d
  | .block b, h => by
    rw [listing, List.mem_singleton] at h
    exact ⟨b, by simp, depth, h⟩
  | .wrap s ns, h => by
    rw [listing] at h
    rw [blocks]
    exact Node.mem_listingList depth ns h
  -- what is in a mouth is one level further in
  | .mouth c ns, h => by
    rw [listing] at h
    rw [blocks]
    exact Node.mem_listingList (depth + 1) ns h

/-- What `listingList` writes is the `listing` of some block of the nodes. -/
private theorem Node.mem_listingList {w : Written} (depth : Nat) :
    ∀ ns : List Node, w ∈ listingList depth ns → ∃ b ∈ blocksList ns, ∃ d, w = b.listing d
  | [], h => by simp [listingList] at h
  | n :: ns, h => by
    rw [listingList, List.mem_append] at h
    rw [blocksList]
    rcases h with h | h
    · obtain ⟨b, hb, d, rfl⟩ := Node.mem_listing depth n h
      exact ⟨b, List.mem_append_left _ hb, d, rfl⟩
    · obtain ⟨b, hb, d, rfl⟩ := Node.mem_listingList depth ns h
      exact ⟨b, List.mem_append_right _ hb, d, rfl⟩

end

/-- A script has a listing if its blocks are `Writable`. -/
private theorem Script.listing_isOk {s : Script} (h : ∀ b ∈ blocks s, b.Writable) (number : Nat) :
    ∃ t, s.listing number = .ok t := by
  -- each line is that of a block
  have hlines : ∀ w ∈ Node.listingList 0 s, ∃ t, w = .ok t := by
    intro w hw
    obtain ⟨b, hb, d, rfl⟩ := Node.mem_listingList 0 s hw
    rw [Node.blocksList_eq_flatMap] at hb
    exact Block.listing_isOk (h b hb) d
  obtain ⟨t, ht⟩ := Written.join_isOk hlines
  unfold listing
  rw [ht]
  exact ⟨_, rfl⟩

/-- So has each of the scripts that follow one another, whatever the number of the first. -/
private theorem Listing.ofScriptsFrom_isOk {scripts : List Script}
    (h : ∀ b ∈ scripts.flatMap Script.blocks, b.Writable) (number : Nat) :
    ∀ w ∈ Listing.ofScriptsFrom number scripts, ∃ t, w = .ok t := by
  induction scripts generalizing number with
  | nil => simp [ofScriptsFrom]
  | cons s rest ih =>
    rw [List.flatMap_cons, List.forall_mem_append] at h
    rw [ofScriptsFrom, List.forall_mem_cons]
    exact ⟨Script.listing_isOk h.1 number, ih h.2 (number + 1)⟩

/-- `ofScripts` makes a listing of scripts in which all blocks are `Writable`. -/
theorem Listing.ofScripts_isOk {scripts : List Script}
    (h : ∀ b ∈ scripts.flatMap Script.blocks, b.Writable) :
    ∃ t, Listing.ofScripts scripts = .ok t :=
  Written.join_isOk (ofScriptsFrom_isOk h 1)

end BlockScript
