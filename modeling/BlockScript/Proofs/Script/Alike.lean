import Mathlib.Data.List.Forall2
import BlockScript.Proofs.Script.Forest

/-!
# Scripts that are alike

Two scripts are alike if they are built in the same way, and of blocks that are related one by one, by some
relation. Their C blocks have the same shapes and their mouths the same categories; whatever else may differ
is in the blocks, as far as the relation allows.

## Key results

- `Node.Alike.blocks`: the blocks of nodes that are alike are related one by one, in the order of the text
- `Node.Alike.mapAttrs`: nodes stay alike when attributes are changed if blocks stay related
-/

namespace BlockScript

/-- Two nodes that are built alike, of blocks that are related one by one. -/
inductive Node.Alike (r : Block → Block → Prop) : Node → Node → Prop
  | block {b b' : Block} (h : r b b') : Alike r (.block b) (.block b')
  | wrap {shape : Option Shape} {ns ns' : List Node} (h : List.Forall₂ (Alike r) ns ns') :
      Alike r (.wrap shape ns) (.wrap shape ns')
  | mouth {category : Option Category} {ns ns' : List Node} (h : List.Forall₂ (Alike r) ns ns') :
      Alike r (.mouth category ns) (.mouth category ns')

/-- Two scripts that are built alike, of blocks that are related one by one. -/
def Script.Alike (r : Block → Block → Prop) (s s' : Script) : Prop := List.Forall₂ (Node.Alike r) s s'

variable {r r' : Block → Block → Prop}

namespace Node

mutual

/-- A node is `Alike` itself if its blocks are related to themselves. -/
theorem Alike.refl (hr : ∀ b, r b b) : ∀ n : Node, n.Alike r n
  | .block b => .block (hr b)
  | .wrap _ ns => .wrap (forall₂_alike_refl hr ns)
  | .mouth _ ns => .mouth (forall₂_alike_refl hr ns)

/-- A list of nodes is `Alike` to itself, if blocks are. -/
private theorem forall₂_alike_refl (hr : ∀ b, r b b) : ∀ ns : List Node, List.Forall₂ (Node.Alike r) ns ns
  | [] => .nil
  | n :: ns => .cons (Alike.refl hr n) (forall₂_alike_refl hr ns)

end

/-- Nodes that are `Alike` have the same shape if related blocks have. -/
private theorem Alike.shape_eq {n n' : Node} (h : n.Alike r n')
    (hr : ∀ b b', r b b' → b'.attrs.shape = b.attrs.shape) :
    n'.shape = n.shape := by
  cases h with
  | block h => exact hr _ _ h
  | wrap h => rfl
  | mouth h => rfl

mutual

/-- By induction on both nodes, which have the same constructors. -/
private theorem forall₂_blocks : ∀ {n n' : Node}, n.Alike r n' → List.Forall₂ r n.blocks n'.blocks
  | .block b, _, .block h => by simpa using h
  | .wrap _ ns, _, .wrap h => by
    rw [blocks, blocks]
    exact forall₂_blocksList h
  | .mouth _ ns, _, .mouth h => by
    rw [blocks, blocks]
    exact forall₂_blocksList h

/-- Lists of nodes that are `Alike` have related blocks. -/
private theorem forall₂_blocksList : ∀ {ns ns' : List Node}, List.Forall₂ (Alike r) ns ns' →
    List.Forall₂ r (blocksList ns) (blocksList ns')
  | [], _, .nil => .nil
  | _ :: _, _, .cons h hs => List.rel_append (forall₂_blocks h) (forall₂_blocksList hs)

end

/-- The `blocks` of nodes that are `Alike` are related one by one. -/
theorem Alike.blocks {n n' : Node} (h : n.Alike r n') : List.Forall₂ r n.blocks n'.blocks :=
  forall₂_blocks h

section

variable {f f' : Attrs → Attrs}

mutual

/-- By induction on both nodes; the relation is used at the blocks alone. -/
private theorem alike_mapAttrs : ∀ {n n' : Node}, n.Alike r n' →
    (∀ b ∈ n.blocks, ∀ b', r b b' → r' (b.mapAttrs f) (b'.mapAttrs f')) →
      Node.Alike r' (n.mapAttrs f) (n'.mapAttrs f')
  | .block b, _, .block h, hr => by
    rw [mapAttrs_block, mapAttrs_block]
    exact .block (hr b (by simp) _ h)
  -- a container has no attributes of its own
  | .wrap _ ns, _, .wrap h, hr => by
    rw [blocks] at hr
    rw [mapAttrs_wrap, mapAttrs_wrap]
    exact .wrap (forall₂_mapAttrs h hr)
  | .mouth _ ns, _, .mouth h, hr => by
    rw [blocks] at hr
    rw [mapAttrs_mouth, mapAttrs_mouth]
    exact .mouth (forall₂_mapAttrs h hr)

private theorem forall₂_mapAttrs : ∀ {ns ns' : List Node}, List.Forall₂ (Alike r) ns ns' →
    (∀ b ∈ blocksList ns, ∀ b', r b b' → r' (b.mapAttrs f) (b'.mapAttrs f')) →
      List.Forall₂ (Alike r') (ns.map (mapAttrs f)) (ns'.map (mapAttrs f'))
  | [], _, .nil, _ => .nil
  | _ :: _, _, .cons h hs, hr =>
    have hparts := List.forall_mem_append.1 hr
    .cons (alike_mapAttrs h hparts.1) (forall₂_mapAttrs hs hparts.2)

end

/-- Nodes stay `Alike` under `mapAttrs`, if the related blocks in them stay related. -/
theorem Alike.mapAttrs {n n' : Node} (h : n.Alike r n')
    (hr : ∀ b ∈ n.blocks, ∀ b', r b b' → r' (b.mapAttrs f) (b'.mapAttrs f')) :
    (n.mapAttrs f).Alike r' (n'.mapAttrs f') :=
  alike_mapAttrs h hr

end

end Node

/-! ## Scripts -/

namespace Script

/-- A script is `Alike` itself if its blocks are related to themselves. -/
theorem Alike.refl (hr : ∀ b, r b b) (s : Script) : s.Alike r s :=
  List.forall₂_same.2 fun n _ => Node.Alike.refl hr n

/-- Scripts that are `Alike` stay so one behind the other. -/
theorem Alike.append {s s' t t' : Script} (h : s.Alike r s') (ht : t.Alike r t') :
    Alike r (s ++ t) (s' ++ t') := List.rel_append h ht

/-- Scripts that are `Alike` have the same shapes in order if related blocks have the same shape. -/
theorem Alike.map_shape {s s' : Script} (h : s.Alike r s') (hr : ∀ b b', r b b' → b'.attrs.shape = b.attrs.shape) :
    s'.map Node.shape = s.map Node.shape := by
  induction h with
  | nil => rfl
  | cons hn _ ih => rw [List.map_cons, List.map_cons, hn.shape_eq hr, ih]

/-- The `blocks` of scripts that are `Alike` are related one by one. -/
theorem Alike.blocks {s s' : Script} (h : s.Alike r s') : List.Forall₂ r (blocks s) (blocks s') := by
  induction h with
  | nil => exact .nil
  | cons hn _ ih => exact List.rel_append hn.blocks ih

/-- Scripts stay `Alike` under `mapAttrs`, if the related blocks in them stay related. -/
theorem Alike.mapAttrs {f f' : Attrs → Attrs} {s s' : Script} (h : s.Alike r s')
    (hr : ∀ b ∈ Script.blocks s, ∀ b', r b b' → r' (b.mapAttrs f) (b'.mapAttrs f')) :
    Script.Alike r' (mapAttrs f s) (mapAttrs f' s') := by
  induction h with
  | nil => exact .nil
  | cons hn _ ih =>
    obtain ⟨hfirst, hrest⟩ := List.forall_mem_append.1 hr
    exact .cons (hn.mapAttrs hfirst) (ih hrest)

end Script

/-! ## C blocks -/

/-- Two branches that are built alike, of blocks that are related one by one. -/
structure Branch.Alike (r : Block → Block → Prop) (b b' : Branch) : Prop where
  category : b'.category = b.category
  inner : Script.Alike r b.inner b'.inner
  ender : r b.ender b'.ender

/-- A branch is `Alike` itself if its blocks are related to themselves. -/
theorem Branch.Alike.refl (hr : ∀ b, r b b) (b : Branch) : b.Alike r b :=
  ⟨rfl, Script.Alike.refl hr _, hr _⟩

/-- Branches that are `Alike` have nodes that are. -/
private theorem Branch.alike_nodes {branches branches' : List Branch}
    (h : List.Forall₂ (Branch.Alike r) branches branches') :
    List.Forall₂ (Node.Alike r) (branches.flatMap nodes) (branches'.flatMap nodes) := by
  induction h with
  | nil => exact .nil
  | @cons b b' _ _ hb _ ih =>
    obtain ⟨c, inner, ender⟩ := b
    obtain ⟨c', inner', ender'⟩ := b'
    obtain ⟨rfl, hinner, hender⟩ := hb
    exact .cons (.mouth hinner) (.cons (.block hender) ih)

/-- C blocks are `Alike` if their openers are related and their branches are `Alike`. -/
theorem Node.alike_cBlock {shape : Option Shape} {opener opener' : Block} (hopener : r opener opener')
    {branches branches' : List Branch} (h : List.Forall₂ (Branch.Alike r) branches branches') :
    (cBlock shape opener branches).Alike r (cBlock shape opener' branches') :=
  .wrap (.cons (.block hopener) (Branch.alike_nodes h))

end BlockScript
