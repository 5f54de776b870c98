import BlockScript.Script.Node

/-!
# Open C blocks

While a script is put together, some of its C blocks are still open. An open C block is a *frame*: what
stands before it, the block that opened it, and the branches that are finished. The frames, innermost
first, and the nodes of the innermost container make up the *nesting*. Closing the innermost C block
turns its frame into a node. Nodes are added at the end of the innermost container only, so nothing that
has been placed moves.
-/

namespace BlockScript

/-- The block that stands for an end that nobody wrote. -/
def impliedEnd : Block :=
  ⟨{ id := some "end".toList, category := some .control, shape := some .stack,
     flag := some .cEnd }, []⟩

/-- A C block that is still open. -/
structure Frame where
  /-- What stands before it in the container that it is in. -/
  before : List Node
  /-- Its shape, which the block that opens it gave up. -/
  shape : Option Shape
  /-- The block that opens it. -/
  opener : Block
  /-- The finished branches, each ended by the block that starts the next one. -/
  branches : List Branch
  /-- The category of the branch that is being filled. -/
  mouth : Option Category

namespace Frame

/-- What a C block holds before the branch that is being filled. -/
def done (f : Frame) : List Node := .block f.opener :: f.branches.flatMap Branch.nodes

/-- The C block so far, when `inner` is in the branch that is being filled. -/
def partially (f : Frame) (inner : List Node) : Node :=
  .wrap f.shape (f.done ++ [.mouth f.mouth inner])

/-- The C block as it is closed by the given block, when `inner` is in its last branch. -/
def closedBy (f : Frame) (inner : List Node) (closer : Block) : Node :=
  .cBlock f.shape f.opener (f.branches ++ [⟨f.mouth, inner, closer⟩])

/-- Change the attributes of all blocks that are placed in a frame. -/
def mapAttrs (g : Attrs → Attrs) (f : Frame) : Frame :=
  { f with
    before := f.before.map (Node.mapAttrs g)
    opener := f.opener.mapAttrs g
    branches := f.branches.map (Branch.mapAttrs g) }

end Frame

/-- The open C blocks of a script, innermost first, and the nodes of the innermost container. -/
structure Nesting where
  frames : List Frame := []
  inner : List Node := []

namespace Nesting

/-- Whether no C block is open. -/
def isFlat (n : Nesting) : Bool := n.frames.isEmpty

/-- Whether nothing has been placed at all. -/
def isEmpty (n : Nesting) : Bool := n.frames.isEmpty && n.inner.isEmpty

/-- Place a node at the end of the innermost container. -/
def place (node : Node) (n : Nesting) : Nesting := { n with inner := n.inner ++ [node] }

/-- Whether the innermost container ends in a cap block, or in a C block with the shape of one. -/
def endsInCap (n : Nesting) : Bool := n.inner.getLast?.any fun node => node.shape == some .cap

/-- A block that ends a branch of a C block: in the category of the block that opened it, and marked if
the branch ends in a cap block. -/
def branchEnd (n : Nesting) (f : Frame) (b : Block) : Block :=
  { b with attrs := { b.attrs with
      category := f.opener.attrs.category
      capEnd := b.attrs.capEnd || n.endsInCap } }

/-- Open a C block. -/
def openWith (b : Block) (n : Nesting) : Nesting where
  frames :=
    { before := n.inner
      shape := b.attrs.shape
      opener := { b with attrs := { b.attrs with shape := some .stack } }
      branches := []
      mouth := b.attrs.category } :: n.frames

/-- Start another branch of the innermost C block; without one the block is placed like any other. -/
def divideWith (b : Block) (n : Nesting) : Nesting :=
  match n.frames with
  | [] => n.place (.block b)
  | f :: outer =>
    { frames :=
        { f with
          branches := f.branches ++ [⟨f.mouth, n.inner, n.branchEnd f b⟩]
          mouth := f.opener.attrs.category } :: outer }

/-- Close the innermost C block; without one the block is placed like any other. -/
def closeWith (b : Block) (n : Nesting) : Nesting :=
  match n.frames with
  | [] => n.place (.block b)
  | f :: outer =>
    { frames := outer, inner := f.before ++ [f.closedBy n.inner (n.branchEnd f b)] }

/-- The script that a nesting comes to when every open C block is closed. -/
def closedFrom (inner : List Node) : List Frame → Script
  | [] => inner
  | f :: outer =>
    closedFrom (f.before ++ [f.closedBy inner (branchEnd ⟨f :: outer, inner⟩ f impliedEnd)]) outer

/-- The script that a nesting comes to when every open C block is closed. -/
def closed (n : Nesting) : Script := closedFrom n.inner n.frames

/-- The nodes of a script with its C blocks as far as they have got. -/
def soFarFrom (inner : List Node) : List Frame → Script
  | [] => inner
  | f :: outer => soFarFrom (f.before ++ [f.partially inner]) outer

/-- The nodes of a script with its C blocks as far as they have got. -/
def soFar (n : Nesting) : Script := soFarFrom n.inner n.frames

/-- The sizes of the containers, the script itself first, then each open C block and its branch. -/
def sizes (n : Nesting) : List Nat :=
  (n.frames.reverse.flatMap fun f => [f.before.length + 1, f.done.length + 1]) ++
    [n.inner.length]

/-- Change the attributes of all blocks that are placed. -/
def mapAttrs (g : Attrs → Attrs) (n : Nesting) : Nesting :=
  ⟨n.frames.map (Frame.mapAttrs g), n.inner.map (Node.mapAttrs g)⟩

end Nesting

end BlockScript
