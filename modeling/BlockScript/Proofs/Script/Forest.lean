import BlockScript.Proofs.Block.Attrs
import BlockScript.Script.Node

/-!
# Views of a forest

Three ways to look at the nodes of a script:

- `Node.nodes` lists a node and everything inside it, at any depth;
- `Node.blocks` lists the blocks alone: a C block is replaced by what it holds, and so is a mouth;
- `Node.parts` lists the blocks with the part that each of them plays, so that a C block reads
  as its opener, what is inside, and the blocks that end its branches.

## Key results

- `blocks_eq_parts`: the second view is the third one without the parts
- `parts_cBlock`: a C block is its opener and then its branches, one after the other
- `nodes_mapAttrs`, `blocks_mapAttrs`, `parts_mapAttrs`: a change of attributes can be seen in each view
-/

namespace BlockScript

/-- The part that a block plays in a script. -/
inductive Part where
  /-- It is no part of a C block. -/
  | alone
  /-- It opens a C block of the given shape. -/
  | opens (shape : Option Shape)
  /-- It ends a branch of a C block and starts the next one. -/
  | divides
  /-- It closes a C block. -/
  | closes
  deriving DecidableEq

/-- Whether a part opens a C block. -/
def Part.isOpening : Part → Bool
  | .opens _ => true
  | _ => false

@[simp] theorem Part.isOpening_alone : isOpening .alone = false := rfl

@[simp] theorem Part.isOpening_opens (s : Option Shape) : isOpening (.opens s) = true := rfl

@[simp] theorem Part.isOpening_divides : isOpening .divides = false := rfl

@[simp] theorem Part.isOpening_closes : isOpening .closes = false := rfl

namespace Node

mutual

/-- A node and all nodes inside it, at any depth, in the order of the text. -/
def nodes : Node → List Node
  | .block b => [.block b]
  | .wrap s inner => .wrap s inner :: nodesList inner
  | .mouth c inner => .mouth c inner :: nodesList inner

/-- All nodes of a list of nodes, at any depth. -/
def nodesList : List Node → List Node
  | [] => []
  | n :: ns => nodes n ++ nodesList ns

end

mutual

/-- The blocks of a node, in the order of the text: C blocks and mouths are replaced by what they
    hold. -/
def blocks : Node → List Block
  | .block b => [b]
  | .wrap _ inner => blocksList inner
  | .mouth _ inner => blocksList inner

/-- The blocks of a list of nodes. -/
def blocksList : List Node → List Block
  | [] => []
  | n :: ns => blocks n ++ blocksList ns

end

/-- The part of a block that stands directly in a C block: the first one opens it, the last one closes
    it, all others divide it. -/
def partIn (opening : Option Part) (later : List Node) : Part :=
  opening.getD (if later.isEmpty then .closes else .divides)

mutual

/-- The blocks of a node in the order of the text, each with its part. -/
def parts : Node → List (Part × Block)
  | .block b => [(.alone, b)]
  | .wrap s inner => partsIn (some (.opens s)) inner
  | .mouth _ inner => partsList inner

/-- The blocks of a list of nodes, each with its part. -/
def partsList : List Node → List (Part × Block)
  | [] => []
  | n :: ns => parts n ++ partsList ns

/-- The blocks inside a C block, each with its part, where the next block opens the C block if that is
    still to come. -/
def partsIn (opening : Option Part) : List Node → List (Part × Block)
  | [] => []
  | .block b :: ns => (partIn opening ns, b) :: partsIn none ns
  | .wrap s inner :: ns => partsIn (some (.opens s)) inner ++ partsIn none ns
  | .mouth _ inner :: ns => partsList inner ++ partsIn none ns

end

/-! ## Lists of nodes -/

/-- `nodesList` lists the `nodes` of each node in turn. -/
private theorem nodesList_eq_flatMap (ns : List Node) : nodesList ns = ns.flatMap nodes := by
  induction ns with
  | nil => rfl
  | cons n ns ih => simp [nodesList, ih]

/-- `blocksList` lists the `blocks` of each node in turn. -/
theorem blocksList_eq_flatMap (ns : List Node) : blocksList ns = ns.flatMap blocks := by
  induction ns with
  | nil => rfl
  | cons n ns ih => simp [blocksList, ih]

/-- `partsList` lists the `parts` of each node in turn. -/
private theorem partsList_eq_flatMap (ns : List Node) : partsList ns = ns.flatMap parts := by
  induction ns with
  | nil => rfl
  | cons n ns ih => simp [partsList, ih]

@[simp] theorem nodes_block (b : Block) : nodes (.block b) = [.block b] := by rw [nodes]

@[simp] theorem nodes_wrap (s : Option Shape) (inner : List Node) :
    nodes (.wrap s inner) = .wrap s inner :: inner.flatMap nodes := by
  rw [nodes, nodesList_eq_flatMap]

@[simp] theorem nodes_mouth (c : Option Category) (inner : List Node) :
    nodes (.mouth c inner) = .mouth c inner :: inner.flatMap nodes := by
  rw [nodes, nodesList_eq_flatMap]

@[simp] theorem blocks_block (b : Block) : blocks (.block b) = [b] := by rw [blocks]

@[simp] theorem blocks_wrap (s : Option Shape) (inner : List Node) :
    blocks (.wrap s inner) = inner.flatMap blocks := by
  rw [blocks, blocksList_eq_flatMap]

@[simp] theorem blocks_mouth (c : Option Category) (inner : List Node) :
    blocks (.mouth c inner) = inner.flatMap blocks := by
  rw [blocks, blocksList_eq_flatMap]

@[simp] theorem parts_block (b : Block) : parts (.block b) = [(.alone, b)] := by rw [parts]

@[simp] theorem parts_mouth (c : Option Category) (inner : List Node) :
    parts (.mouth c inner) = inner.flatMap parts := by
  rw [parts, partsList_eq_flatMap]

mutual

/-- A node inside a node that is inside another one is inside that one too. -/
private theorem nodes_subset {m : Node} : ∀ {n : Node}, m ∈ n.nodes → m.nodes ⊆ n.nodes
  | .block b, h => by
    obtain rfl : m = .block b := by simpa using h
    exact List.Subset.refl _
  -- it is the container itself, or among what is in it
  | .wrap s inner, h => by
    rw [nodes, List.mem_cons] at h
    rcases h with rfl | h
    · exact List.Subset.refl _
    · rw [nodes]
      exact List.subset_cons_of_subset _ (nodesList_subset h)
  | .mouth c inner, h => by
    rw [nodes, List.mem_cons] at h
    rcases h with rfl | h
    · exact List.Subset.refl _
    · rw [nodes]
      exact List.subset_cons_of_subset _ (nodesList_subset h)

/-- So it is with the `nodes` of a list. -/
private theorem nodesList_subset {m : Node} :
    ∀ {ns : List Node}, m ∈ nodesList ns → m.nodes ⊆ nodesList ns
  | [], h => by simp [nodesList] at h
  | n :: ns, h => by
    rw [nodesList, List.mem_append] at h
    rw [nodesList]
    rcases h with h | h
    · exact List.subset_append_of_subset_left _ (nodes_subset h)
    · exact List.subset_append_of_subset_right _ (nodesList_subset h)

end

/-- A node is the first of its own `nodes`. -/
theorem mem_nodes_self (n : Node) : n ∈ n.nodes := by
  cases n <;> simp

/-! ## The parts of a C block -/

/-- The blocks of the branches of a C block that has not been closed yet. -/
def branchParts (branches : List Branch) : List (Part × Block) :=
  branches.flatMap fun b => b.inner.flatMap parts ++ [(.divides, b.ender)]

/-- In a C block the branches come after each other, and the block that ends the last one closes it. -/
private theorem partsIn_branches (branches : List Branch) (last : Branch) :
    partsIn none ((branches ++ [last]).flatMap Branch.nodes) =
      branchParts branches ++ last.inner.flatMap parts ++ [(.closes, last.ender)] := by
  induction branches with
  | nil => simp [partsIn, Branch.nodes, partIn, branchParts, partsList_eq_flatMap]
  | cons b bs ih =>
    -- more branches follow, so the block that ends this one does not close the C block
    have hmore : ((bs ++ [last]).flatMap Branch.nodes).isEmpty = false := by
      cases bs <;> simp [Branch.nodes]
    simp only [List.cons_append, List.flatMap_cons, Branch.nodes, List.nil_append] at ih hmore ⊢
    simp only [partsIn, partIn, Option.getD_none, hmore, ih, partsList_eq_flatMap, branchParts,
      List.flatMap_cons, List.append_assoc, List.cons_append, List.nil_append,
      Bool.false_eq_true, if_false]

/-- The `parts` of a C block are its opener, the branches that another one follows, and the last branch. -/
theorem parts_cBlock (s : Option Shape) (opener : Block) (branches : List Branch) (last : Branch) :
    parts (cBlock s opener (branches ++ [last])) =
      (.opens s, opener) ::
        (branchParts branches ++ last.inner.flatMap parts ++ [(.closes, last.ender)]) := by
  rw [cBlock, parts, partsIn, partsIn_branches]
  rfl

@[simp] theorem branchParts_append (bs : List Branch) (b : Branch) :
    branchParts (bs ++ [b]) =
      branchParts bs ++ b.inner.flatMap parts ++ [(.divides, b.ender)] := by
  simp [branchParts]

/-! ## Blocks and parts -/

mutual

/-- A node, a list of nodes and what is in a C block have the same blocks with and without their parts. -/
private theorem blocks_eq_map_parts : ∀ n : Node, n.blocks = n.parts.map (·.2)
  | .block b => by simp
  | .wrap s inner => by rw [blocks, parts, blocksList_eq_map_partsIn]
  | .mouth _ inner => by rw [blocks, parts, blocksList_eq_map_partsList]

private theorem blocksList_eq_map_partsList :
    ∀ ns : List Node, blocksList ns = (partsList ns).map (·.2)
  | [] => rfl
  | n :: ns => by
    rw [blocksList, partsList, blocks_eq_map_parts n, blocksList_eq_map_partsList ns,
      List.map_append]

private theorem blocksList_eq_map_partsIn (opening : Option Part) :
    ∀ ns : List Node, blocksList ns = (partsIn opening ns).map (·.2)
  | [] => rfl
  | .block b :: ns => by
    rw [blocksList, partsIn, blocksList_eq_map_partsIn none ns, blocks]
    rfl
  | .wrap s inner :: ns => by
    rw [blocksList, partsIn, blocksList_eq_map_partsIn none ns, blocks,
      blocksList_eq_map_partsIn (some (.opens s)) inner, List.map_append]
  | .mouth _ inner :: ns => by
    rw [blocksList, partsIn, blocksList_eq_map_partsIn none ns, blocks,
      blocksList_eq_map_partsList inner, List.map_append]

end

/-- The `blocks` of a node are its `parts`, whatever part they play. -/
theorem blocks_eq_parts (n : Node) : n.blocks = n.parts.map (·.2) := blocks_eq_map_parts n

mutual

/-- The `blocks` are what is a block among the `nodes`. -/
private theorem blocks_eq_filterMap_nodes : ∀ n : Node, n.blocks = n.nodes.filterMap block?
  | .block b => by simp [block?]
  | .wrap s inner => by
    rw [blocks, nodes, List.filterMap_cons_none rfl, blocksList_eq_filterMap_nodesList inner]
  | .mouth c inner => by
    rw [blocks, nodes, List.filterMap_cons_none rfl, blocksList_eq_filterMap_nodesList inner]

/-- The `blocksList` of nodes are the blocks among their `nodesList`. -/
private theorem blocksList_eq_filterMap_nodesList :
    ∀ ns : List Node, blocksList ns = (nodesList ns).filterMap block?
  | [] => rfl
  | n :: ns => by
    rw [blocksList, nodesList, blocks_eq_filterMap_nodes n, blocksList_eq_filterMap_nodesList ns,
      List.filterMap_append]

end

/-- The `blocks` of a node are the blocks among its `nodes`. -/
theorem mem_blocks_iff {n : Node} {b : Block} : b ∈ n.blocks ↔ .block b ∈ n.nodes := by
  rw [blocks_eq_filterMap_nodes, List.mem_filterMap]
  constructor
  · rintro ⟨m, hm, hb⟩
    cases m with
    | block b' =>
      cases hb
      exact hm
    | wrap s inner => cases hb
    | mouth c inner => cases hb
  · intro hb
    exact ⟨_, hb, rfl⟩

/-! ## Containers -/

mutual

/-- What is in a node is the node itself, or stands directly in one of the others. -/
private theorem container_of_mem_nodes {m : Node} :
    ∀ n : Node, m ∈ n.nodes → m = n ∨ ∃ n' ∈ n.nodes, m ∈ n'.contents
  | .block b, h => .inl (by simpa using h)
  -- what is in a container is directly in it, or in another one there
  | .wrap s inner, h => by
    rw [nodes, List.mem_cons] at h
    refine h.imp_right fun h => ?_
    rw [nodes]
    obtain hm | ⟨n', hn', hm⟩ := container_of_mem_nodesList inner h
    · exact ⟨.wrap s inner, List.mem_cons_self, hm⟩
    · exact ⟨n', List.mem_cons_of_mem _ hn', hm⟩
  | .mouth c inner, h => by
    rw [nodes, List.mem_cons] at h
    refine h.imp_right fun h => ?_
    rw [nodes]
    obtain hm | ⟨n', hn', hm⟩ := container_of_mem_nodesList inner h
    · exact ⟨.mouth c inner, List.mem_cons_self, hm⟩
    · exact ⟨n', List.mem_cons_of_mem _ hn', hm⟩

/-- What is in a list of nodes stands in the list, or directly in one of them. -/
private theorem container_of_mem_nodesList {m : Node} :
    ∀ ns : List Node, m ∈ nodesList ns → m ∈ ns ∨ ∃ n' ∈ nodesList ns, m ∈ n'.contents
  | [], h => by simp [nodesList] at h
  | n :: ns, h => by
    rw [nodesList, List.mem_append] at h
    rw [nodesList]
    rcases h with h | h
    · obtain rfl | ⟨n', hn', hm⟩ := container_of_mem_nodes n h
      · exact .inl List.mem_cons_self
      · exact .inr ⟨n', List.mem_append_left _ hn', hm⟩
    · obtain hm | ⟨n', hn', hm⟩ := container_of_mem_nodesList ns h
      · exact .inl (List.mem_cons_of_mem _ hm)
      · exact .inr ⟨n', List.mem_append_right _ hn', hm⟩

end

/-- A node among the `nodes` of a list stands in the list itself or directly in one of the others. -/
theorem exists_container {ns : List Node} {m : Node} (h : m ∈ ns.flatMap nodes) :
    m ∈ ns ∨ ∃ n ∈ ns.flatMap nodes, m ∈ n.contents := by
  rw [← nodesList_eq_flatMap] at h ⊢
  exact container_of_mem_nodesList ns h

/-! ## Openers -/

mutual

/-- The block at the start of a C block opens it, wherever the C block stands. -/
private theorem opens_mem_parts {s : Option Shape} {b : Block} {later : List Node} :
    ∀ n : Node, .wrap s (.block b :: later) ∈ n.nodes → (.opens s, b) ∈ n.parts
  | .block _, h => by simp at h
  | .wrap s' inner, h => by
    rw [nodes, List.mem_cons] at h
    rw [parts]
    rcases h with h | h
    · cases h
      -- here it is the C block itself
      simp [partsIn, partIn]
    · exact opens_mem_partsIn (some (.opens s')) inner h
  | .mouth _ inner, h => by
    rw [nodes, List.mem_cons] at h
    rw [parts]
    rcases h with h | h
    · cases h
    · exact opens_mem_partsList inner h

private theorem opens_mem_partsList {s : Option Shape} {b : Block} {later : List Node} :
    ∀ ns : List Node, .wrap s (.block b :: later) ∈ nodesList ns → (.opens s, b) ∈ partsList ns
  | [], h => by simp [nodesList] at h
  | n :: ns, h => by
    rw [nodesList, List.mem_append] at h
    rw [partsList, List.mem_append]
    exact h.imp (opens_mem_parts n) (opens_mem_partsList ns)

/-- The block that stands first in a C block is among the `partsIn` of the nodes around, as what opens it. -/
private theorem opens_mem_partsIn {s : Option Shape} {b : Block} {later : List Node}
    (opening : Option Part) :
    ∀ ns : List Node, .wrap s (.block b :: later) ∈ nodesList ns →
      (.opens s, b) ∈ partsIn opening ns
  | [], h => by simp [nodesList] at h
  | .block _ :: ns, h => by
    rw [nodesList, nodes_block, List.mem_append] at h
    rw [partsIn, List.mem_cons]
    exact .inr (opens_mem_partsIn none ns (h.resolve_left (by simp)))
  | .wrap s' inner :: ns, h => by
    rw [nodesList, List.mem_append] at h
    rw [partsIn, List.mem_append]
    exact h.imp (fun h => parts.eq_2 s' inner ▸ opens_mem_parts (.wrap s' inner) h)
      (opens_mem_partsIn none ns)
  | .mouth c inner :: ns, h => by
    rw [nodesList, List.mem_append] at h
    rw [partsIn, List.mem_append]
    exact h.imp (fun h => parts.eq_3 c inner ▸ opens_mem_parts (.mouth c inner) h)
      (opens_mem_partsIn none ns)

end

/-- The block that a C block starts with is its opener among the `parts`. -/
theorem opener_mem_parts {n : Node} {s : Option Shape} {b : Block} {later : List Node}
    (h : .wrap s (.block b :: later) ∈ n.nodes) : (.opens s, b) ∈ n.parts :=
  opens_mem_parts n h

/-! ## Changing attributes -/

@[simp] theorem mapAttrs_block (f : Attrs → Attrs) (b : Block) :
    mapAttrs f (.block b) = .block (b.mapAttrs f) := by rw [mapAttrs]

@[simp] theorem mapAttrs_wrap (f : Attrs → Attrs) (s : Option Shape) (inner : List Node) :
    mapAttrs f (.wrap s inner) = .wrap s (inner.map (mapAttrs f)) := by
  rw [mapAttrs, mapAttrsList_eq_map]

@[simp] theorem mapAttrs_mouth (f : Attrs → Attrs) (c : Option Category) (inner : List Node) :
    mapAttrs f (.mouth c inner) = .mouth c (inner.map (mapAttrs f)) := by
  rw [mapAttrs, mapAttrsList_eq_map]

/-- What is a block after `mapAttrs` was one before. -/
theorem mapAttrs_eq_block {f : Attrs → Attrs} {n : Node} {b : Block} (h : n.mapAttrs f = .block b) :
    ∃ b₀, n = .block b₀ ∧ b = b₀.mapAttrs f := by
  cases n with
  | block b₀ =>
    rw [mapAttrs_block] at h
    cases h
    exact ⟨b₀, rfl, rfl⟩
  | wrap s inner => simp at h
  | mouth c inner => simp at h

/-- What is a C block after `mapAttrs` was one before. -/
private theorem mapAttrs_eq_wrap {f : Attrs → Attrs} {n : Node} {s : Option Shape} {inner : List Node}
    (h : n.mapAttrs f = .wrap s inner) : ∃ inner₀, n = .wrap s inner₀ ∧ inner = inner₀.map (mapAttrs f) := by
  cases n with
  | block b => simp at h
  | wrap s₀ inner₀ =>
    rw [mapAttrs_wrap] at h
    cases h
    exact ⟨inner₀, rfl, rfl⟩
  | mouth c inner₀ => simp at h

/-- What is a mouth after `mapAttrs` was one before. -/
theorem mapAttrs_eq_mouth {f : Attrs → Attrs} {n : Node} {c : Option Category} {inner : List Node}
    (h : n.mapAttrs f = .mouth c inner) : ∃ inner₀, n = .mouth c inner₀ ∧ inner = inner₀.map (mapAttrs f) := by
  cases n with
  | block b => simp at h
  | wrap s inner₀ => simp at h
  | mouth c₀ inner₀ =>
    rw [mapAttrs_mouth] at h
    cases h
    exact ⟨inner₀, rfl, rfl⟩

/-- A block among nodes changed by `mapAttrs` is a block that has been changed. -/
theorem block_mem_map_mapAttrs {f : Attrs → Attrs} {ns : List Node} {b : Block}
    (h : .block b ∈ ns.map (mapAttrs f)) : ∃ b₀, .block b₀ ∈ ns ∧ b = b₀.mapAttrs f := by
  obtain ⟨n, hn, heq⟩ := List.mem_map.1 h
  obtain ⟨b₀, rfl, rfl⟩ := mapAttrs_eq_block heq
  exact ⟨b₀, hn, rfl⟩

/-- A `wrap` among changed nodes is one in which all has been changed. -/
theorem wrap_mem_map_mapAttrs {f : Attrs → Attrs} {ns : List Node} {s : Option Shape}
    {inner : List Node} (h : .wrap s inner ∈ ns.map (mapAttrs f)) :
    ∃ inner₀, .wrap s inner₀ ∈ ns ∧ inner = inner₀.map (mapAttrs f) := by
  obtain ⟨n, hn, heq⟩ := List.mem_map.1 h
  obtain ⟨inner₀, rfl, rfl⟩ := mapAttrs_eq_wrap heq
  exact ⟨inner₀, hn, rfl⟩

/-- A `mouth` among changed nodes is one in which all has been changed. -/
theorem mouth_mem_map_mapAttrs {f : Attrs → Attrs} {ns : List Node} {c : Option Category}
    {inner : List Node} (h : .mouth c inner ∈ ns.map (mapAttrs f)) :
    ∃ inner₀, .mouth c inner₀ ∈ ns ∧ inner = inner₀.map (mapAttrs f) := by
  obtain ⟨n, hn, heq⟩ := List.mem_map.1 h
  obtain ⟨inner₀, rfl, rfl⟩ := mapAttrs_eq_mouth heq
  exact ⟨inner₀, hn, rfl⟩

/-- A change that leaves shapes alone leaves the `shape` of a node alone. -/
theorem shape_mapAttrs {f : Attrs → Attrs} (hf : ∀ a, (f a).shape = a.shape) (n : Node) :
    (n.mapAttrs f).shape = n.shape := by
  cases n with
  | block b => simp [shape, Block.mapAttrs, hf]
  | wrap s inner => simp [shape]
  | mouth c inner => simp [shape]

mutual

/-- `mapAttrs` reaches every one of the `nodes`. -/
theorem nodes_mapAttrs (f : Attrs → Attrs) :
    ∀ n : Node, (n.mapAttrs f).nodes = n.nodes.map (mapAttrs f)
  | .block b => by simp
  | .wrap s inner => by
    rw [mapAttrs, nodes, nodesList_mapAttrsList f inner, nodes, List.map_cons, mapAttrs]
  | .mouth c inner => by
    rw [mapAttrs, nodes, nodesList_mapAttrsList f inner, nodes, List.map_cons, mapAttrs]

private theorem nodesList_mapAttrsList (f : Attrs → Attrs) :
    ∀ ns : List Node, nodesList (mapAttrsList f ns) = (nodesList ns).map (mapAttrs f)
  | [] => rfl
  | n :: ns => by
    rw [mapAttrsList, nodesList, nodes_mapAttrs f n, nodesList_mapAttrsList f ns, nodesList,
      List.map_append]

end

mutual

/-- `mapAttrs` reaches every block, and no block changes its part. -/
theorem parts_mapAttrs (f : Attrs → Attrs) :
    ∀ n : Node, (n.mapAttrs f).parts = n.parts.map fun p => (p.1, p.2.mapAttrs f)
  | .block b => by simp
  | .wrap s inner => by rw [mapAttrs, parts, partsIn_mapAttrsList, parts]
  | .mouth c inner => by rw [mapAttrs, parts, partsList_mapAttrsList, parts]

private theorem partsList_mapAttrsList (f : Attrs → Attrs) :
    ∀ ns : List Node,
      partsList (mapAttrsList f ns) = (partsList ns).map fun p => (p.1, p.2.mapAttrs f)
  | [] => rfl
  | n :: ns => by
    rw [mapAttrsList, partsList, parts_mapAttrs f n, partsList_mapAttrsList f ns, partsList,
      List.map_append]

/-- A change of attributes changes the blocks among the `partsIn` of nodes, and not what parts they are:
    whether more follows is the same before and after. -/
private theorem partsIn_mapAttrsList (f : Attrs → Attrs) (opening : Option Part) :
    ∀ ns : List Node,
      partsIn opening (mapAttrsList f ns) =
        (partsIn opening ns).map fun p => (p.1, p.2.mapAttrs f)
  | [] => rfl
  | .block b :: ns => by
    have hlater : (mapAttrsList f ns).isEmpty = ns.isEmpty := by
      rw [mapAttrsList_eq_map, List.isEmpty_map]
    rw [mapAttrsList, mapAttrs, partsIn, partsIn, partsIn_mapAttrsList f none ns, partIn, hlater]
    rfl
  | .wrap s inner :: ns => by
    rw [mapAttrsList, mapAttrs, partsIn, partsIn, partsIn_mapAttrsList f none ns,
      partsIn_mapAttrsList f (some (.opens s)) inner, List.map_append]
  | .mouth c inner :: ns => by
    rw [mapAttrsList, mapAttrs, partsIn, partsIn, partsIn_mapAttrsList f none ns,
      partsList_mapAttrsList f inner, List.map_append]

end

/-- `mapAttrs` reaches every one of the `blocks`. -/
theorem blocks_mapAttrs (f : Attrs → Attrs) (n : Node) :
    (n.mapAttrs f).blocks = n.blocks.map (Block.mapAttrs f) := by
  rw [blocks_eq_parts, blocks_eq_parts, parts_mapAttrs, List.map_map, List.map_map]
  rfl

mutual

/-- One `mapAttrs` after another is a single one. -/
theorem mapAttrs_mapAttrs (g f : Attrs → Attrs) :
    ∀ n : Node, (n.mapAttrs f).mapAttrs g = n.mapAttrs (g ∘ f)
  | .block b => by simp [Block.mapAttrs_mapAttrs]
  | .wrap s inner => by
    rw [mapAttrs, mapAttrs, mapAttrsList_mapAttrsList g f inner, mapAttrs]
  | .mouth c inner => by
    rw [mapAttrs, mapAttrs, mapAttrsList_mapAttrsList g f inner, mapAttrs]

private theorem mapAttrsList_mapAttrsList (g f : Attrs → Attrs) :
    ∀ ns : List Node, mapAttrsList g (mapAttrsList f ns) = mapAttrsList (g ∘ f) ns
  | [] => rfl
  | n :: ns => by
    rw [mapAttrsList, mapAttrsList, mapAttrs_mapAttrs g f n, mapAttrsList_mapAttrsList g f ns,
      mapAttrsList]

end

mutual

/-- Without a change `mapAttrs` leaves a node as it is. -/
theorem mapAttrs_id : ∀ n : Node, n.mapAttrs id = n
  | .block b => by rw [mapAttrs, Block.mapAttrs_id]
  | .wrap s inner => by rw [mapAttrs, mapAttrsList_id inner]
  | .mouth c inner => by rw [mapAttrs, mapAttrsList_id inner]

private theorem mapAttrsList_id : ∀ ns : List Node, mapAttrsList id ns = ns
  | [] => rfl
  | n :: ns => by rw [mapAttrsList, mapAttrs_id n, mapAttrsList_id ns]

end

/-- So on a list of nodes one `mapAttrs` after another is a single one. -/
theorem map_mapAttrs_mapAttrs (g f : Attrs → Attrs) (ns : List Node) :
    (ns.map (mapAttrs f)).map (mapAttrs g) = ns.map (mapAttrs (g ∘ f)) := by
  rw [List.map_map]
  exact List.map_congr_left fun n _ => mapAttrs_mapAttrs g f n

end Node

/-! ## Scripts -/

namespace Script

/-- All nodes of a script, at any depth. -/
def nodes (s : Script) : List Node := s.flatMap Node.nodes

/-- The blocks of a script, in the order of the text. -/
def blocks (s : Script) : List Block := s.flatMap Node.blocks

/-- The blocks of a script, each with its part. -/
def parts (s : Script) : List (Part × Block) := s.flatMap Node.parts

/-- The attributes in a script, at any depth. -/
def allAttrs (s : Script) : List Attrs := (blocks s).flatMap Block.allAttrs

/-- Change the attributes of all blocks of a script. -/
def mapAttrs (f : Attrs → Attrs) (s : Script) : Script := s.map (Node.mapAttrs f)

/-- What stands directly in a node of a script is among the `nodes` of the script. -/
private theorem mem_nodes_of_mem_contents {s : Script} {m n : Node} (hm : m ∈ nodes s)
    (hn : n ∈ m.contents) : n ∈ nodes s := by
  obtain ⟨top, htop, hm⟩ := List.mem_flatMap.1 hm
  have hinside : n ∈ m.nodes := by
    -- what stands directly in a node is one of its own nodes
    have hlater : n ∈ m.contents.flatMap Node.nodes := List.mem_flatMap.2 ⟨n, hn, n.mem_nodes_self⟩
    cases m with
    | block b => simp [Node.contents] at hn
    | wrap s inner =>
      rw [Node.nodes_wrap]
      exact List.mem_cons_of_mem _ hlater
    | mouth c inner =>
      rw [Node.nodes_mouth]
      exact List.mem_cons_of_mem _ hlater
  exact List.mem_flatMap.2 ⟨top, htop, Node.nodes_subset hm hinside⟩

/-- What a mouth of a script holds is among the `nodes` of the script. -/
theorem mem_nodes_of_mem_mouth {s : Script} {c : Option Category} {inner : List Node} {n : Node}
    (hmouth : .mouth c inner ∈ nodes s) (hn : n ∈ inner) : n ∈ nodes s :=
  mem_nodes_of_mem_contents hmouth hn

/-- What stands in a C block among the `nodes` of a script is among them too. -/
theorem mem_nodes_of_mem_wrap {s : Script} {shape : Option Shape} {inner : List Node} {n : Node}
    (hwrap : .wrap shape inner ∈ nodes s) (hn : n ∈ inner) : n ∈ nodes s :=
  mem_nodes_of_mem_contents hwrap hn

/-- The `blocks` of a script are the blocks among its `nodes`. -/
theorem mem_blocks_iff {s : Script} {b : Block} : b ∈ blocks s ↔ .block b ∈ nodes s := by
  simp only [blocks, nodes, List.mem_flatMap, Node.mem_blocks_iff]

/-- The `blocks` of a script are its `parts`, whatever part they play. -/
theorem blocks_eq_parts (s : Script) : blocks s = (parts s).map (·.2) := by
  rw [blocks, parts, List.map_flatMap]
  congr 1
  funext n
  exact n.blocks_eq_parts

/-- The block that a C block of a script starts with is its opener among the `parts`. -/
theorem opener_mem_parts {s : Script} {shape : Option Shape} {b : Block} {later : List Node}
    (h : .wrap shape (.block b :: later) ∈ nodes s) : (.opens shape, b) ∈ parts s := by
  obtain ⟨n, hn, h⟩ := List.mem_flatMap.1 h
  exact List.mem_flatMap.2 ⟨n, hn, Node.opener_mem_parts h⟩

/-- `mapAttrs` reaches every one of the `nodes` of a script. -/
theorem nodes_mapAttrs (f : Attrs → Attrs) (s : Script) :
    nodes (mapAttrs f s) = (nodes s).map (Node.mapAttrs f) := by
  simp only [nodes, mapAttrs, List.flatMap_map, List.map_flatMap, Node.nodes_mapAttrs]

/-- `mapAttrs` reaches every block of the script, and no block changes its part. -/
theorem parts_mapAttrs (f : Attrs → Attrs) (s : Script) :
    parts (mapAttrs f s) = (parts s).map fun p => (p.1, p.2.mapAttrs f) := by
  simp only [parts, mapAttrs, List.flatMap_map, List.map_flatMap, Node.parts_mapAttrs]

/-- So it reaches every one of the `blocks`. -/
theorem blocks_mapAttrs (f : Attrs → Attrs) (s : Script) :
    blocks (mapAttrs f s) = (blocks s).map (Block.mapAttrs f) := by
  simp only [blocks, mapAttrs, List.flatMap_map, List.map_flatMap, Node.blocks_mapAttrs]

/-- And all attributes in `allAttrs`, those of arguments too. -/
theorem allAttrs_mapAttrs (f : Attrs → Attrs) (s : Script) :
    allAttrs (mapAttrs f s) = (allAttrs s).map f := by
  simp only [allAttrs, blocks_mapAttrs, List.flatMap_map, List.map_flatMap,
    Block.allAttrs_mapAttrs]

/-- On a script too, one `mapAttrs` after another is a single one. -/
theorem mapAttrs_mapAttrs (g f : Attrs → Attrs) (s : Script) :
    mapAttrs g (mapAttrs f s) = mapAttrs (g ∘ f) s := Node.map_mapAttrs_mapAttrs g f s

/-- And without a change `mapAttrs` leaves it as it is. -/
theorem mapAttrs_id (s : Script) : mapAttrs id s = s := by
  rw [mapAttrs, List.map_congr_left (fun n _ => n.mapAttrs_id), List.map_id']

end Script

end BlockScript
