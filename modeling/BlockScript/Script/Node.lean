import BlockScript.Block.Render

/-!
# Scripts

A script is a list of nodes. A node is a block, or a C block: a *wrap* of the block that opens it, a
*mouth* with the blocks inside, further branches, and the block that closes it.
-/

namespace BlockScript

/-- A part of a script. -/
inductive Node where
  | block (b : Block)
  /-- A C block with its shape: blocks and mouths in turn. -/
  | wrap (shape : Option Shape) (contents : List Node)
  /-- One branch of a C block, in the category of that block. -/
  | mouth (category : Option Category) (contents : List Node)
  deriving Inhabited

/-- Nodes that belong together, laid out apart from other scripts. -/
abbrev Script := List Node

namespace Node

/-- The block that a node is. -/
def block? : Node → Option Block
  | .block b => some b
  | _ => none

/-- A node as a piece of a block: only blocks can stand there. -/
def toPiece : Node → Except Unwritable Piece
  | .block b => .ok b.toPiece
  | .wrap _ _ => .error .wrapInside
  | .mouth _ _ => .error .mouthInside

/-- Whether a node is a mouth. -/
def isMouth : Node → Bool
  | .mouth _ _ => true
  | _ => false

/-- The nodes inside a node. -/
def contents : Node → List Node
  | .block _ => []
  | .wrap _ nodes => nodes
  | .mouth _ nodes => nodes

/-- The shape of a block or of a C block. -/
def shape : Node → Option Shape
  | .block b => b.attrs.shape
  | .wrap s _ => s
  | .mouth _ _ => none

/-- The category of a block or a mouth; a C block has that of the block that opens it. -/
def category : Node → Option Category
  | .block b => b.attrs.category
  | .wrap _ (.block b :: _) => b.attrs.category
  | .wrap _ _ => none
  | .mouth c _ => c

/-- The blocks directly inside a node. -/
def innerBlocks (n : Node) : List Block := n.contents.filterMap block?

/-- The mouths directly inside a node. -/
def innerMouths (n : Node) : List Node := n.contents.filter isMouth

mutual

/-- Change the attributes of all blocks of a node. -/
def mapAttrs (f : Attrs → Attrs) : Node → Node
  | .block b => .block (b.mapAttrs f)
  | .wrap s nodes => .wrap s (mapAttrsList f nodes)
  | .mouth c nodes => .mouth c (mapAttrsList f nodes)

/-- Change the attributes of all blocks of a list of nodes. -/
def mapAttrsList (f : Attrs → Attrs) : List Node → List Node
  | [] => []
  | n :: ns => mapAttrs f n :: mapAttrsList f ns

end

theorem mapAttrsList_eq_map (f : Attrs → Attrs) (ns : List Node) :
    mapAttrsList f ns = ns.map (mapAttrs f) := by
  induction ns with
  | nil => simp [mapAttrsList]
  | cons n ns ih => simp [mapAttrsList, ih]

end Node

/-! ## C blocks -/

/-- A branch of a C block: a mouth, and the block that ends it, which starts the next branch or closes
the C block. -/
structure Branch where
  category : Option Category
  inner : List Node
  ender : Block

namespace Branch

/-- The nodes of a branch. -/
def nodes (b : Branch) : List Node := [.mouth b.category b.inner, .block b.ender]

/-- Change the attributes of all blocks of a branch. -/
def mapAttrs (f : Attrs → Attrs) (b : Branch) : Branch :=
  { b with inner := b.inner.map (Node.mapAttrs f), ender := b.ender.mapAttrs f }

end Branch

/-- A C block with all its branches; the block that ends the last one closes it. -/
def Node.cBlock (shape : Option Shape) (opener : Block) (branches : List Branch) : Node :=
  .wrap shape (.block opener :: branches.flatMap Branch.nodes)

end BlockScript
