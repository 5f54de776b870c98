import BlockScript.Proofs.Script.Forest
import BlockScript.Proofs.Workspace.Trace

/-!
# Blocks in their places

A block in a layout has one of three places: it stands in a script or in a mouth, it opens a C block, or it
ends a branch of one. What is asked of a block may depend on its place: of an opener on the shape that it
leaves to the C block, and of the end of a branch on the opener and on what is in the branch. If the blocks
that are added and the implied ends meet this when they are placed, then all blocks of the layout do,
because a branch does not change any more when it has been ended.

What is asked of a finished C block is asked of an open one as far as it has got, so that closing it is the
only step at which there is something to show.

## Key results

- `Script.Suits.blocks`: every block has one of the three places
- `Layout.run_suits`: what is asked of blocks by their places holds in every layout
-/

namespace BlockScript

/-! ## What is asked -/

/-- Whether nodes end in a cap block, or in a C block with the shape of one. -/
def Script.endsInCap (s : Script) : Bool := s.getLast?.any fun node => node.shape == some .cap

/-- With `endsInCap` nodes have a last one, and it has the shape of a cap. -/
theorem Script.endsInCap_iff (s : Script) :
    s.endsInCap = true ↔ ∃ n, s.getLast? = some n ∧ n.shape = some .cap := by
  simp [endsInCap, Option.any_eq_true]

/-- What is asked of the blocks of a script by their places. -/
structure Places where
  /-- Of a block that stands in a script or in a mouth. -/
  item : Block → Prop
  /-- Of the block that opens a C block of the given shape. -/
  opener : Option Shape → Block → Prop
  /-- Of the block that ends a branch with the given flag, in a C block with the given opener: it may
      depend on what is in the branch. -/
  ender : Flag → Block → List Node → Block → Prop

/-- Blocks with the given property, and implied ends, meet what is asked when they are placed. -/
structure Places.KeptFor (P : Places) (Q : Block → Prop) : Prop where
  item : ∀ b, Q b → (b.attrs.flag = some .cStart → b.isComment = true) → P.item b
  opener : ∀ b, Q b → b.attrs.flag = some .cStart → P.opener b.attrs.shape b.asOpener
  ender : ∀ flag b shape opener inner, Q b ∨ b = impliedEnd → flag = .cElse ∨ flag = .cEnd →
    b.attrs.flag = some flag → P.opener shape opener →
      P.ender flag opener inner
        (b.asEnder opener.attrs.category (b.attrs.capEnd || Script.endsInCap inner))

section

variable (P : Places)

/-- A branch of a C block with the given opener: its mouth is in the category of the opener, and the block
    that ends it is as it is asked to be. -/
structure Branch.Suits (opener : Block) (flag : Flag) (b : Branch) : Prop where
  mouth : b.category = opener.attrs.category
  ender : P.ender flag opener b.inner b.ender

/-- A node that stands in a script or in a mouth: no mouth, and if it is a block as it is asked to be. -/
structure Node.IsItem (n : Node) : Prop where
  notMouth : n.isMouth = false
  block : ∀ b, n = .block b → P.item b

/-- A node as it is asked to be, whatever is inside it: a C block is built of an opener, branches that
    another one follows, and a last branch. -/
def Node.Suits : Node → Prop
  | .block _ => True
  | .mouth _ inner => ∀ n ∈ inner, n.IsItem P
  | .wrap shape contents =>
    ∃ opener branches last,
      Node.wrap shape contents = cBlock shape opener (branches ++ [last]) ∧ P.opener shape opener ∧
        (∀ b ∈ branches, b.Suits P opener .cElse) ∧ last.Suits P opener .cEnd

/-- Nodes that stand in a script or in a mouth, as they are asked to be at any depth. -/
structure Script.Suits (s : Script) : Prop where
  items : ∀ n ∈ s, n.IsItem P
  inside : ∀ n ∈ Script.nodes s, n.Suits P

/-- An open C block as it is asked to be so far. -/
structure Frame.Suits (f : Frame) : Prop where
  before : Script.Suits P f.before
  opener : P.opener f.shape f.opener
  mouth : f.mouth = f.opener.attrs.category
  branches : ∀ b ∈ f.branches, b.Suits P f.opener .cElse ∧ Script.Suits P b.inner

/-- A nesting as it is asked to be. -/
structure Nesting.Suits (n : Nesting) : Prop where
  frames : ∀ f ∈ n.frames, f.Suits P
  inner : Script.Suits P n.inner

/-- A layout as it is asked to be. -/
structure Layout.Suits (l : Layout) : Prop where
  scripts : ∀ s ∈ l.scripts, Script.Suits P s
  nesting : l.nesting.Suits P

end

variable {P : Places}

/-! ## Scripts -/

namespace Script

/-- An empty script `Suits` all places. -/
private theorem suits_nil : Suits P [] := ⟨by simp, by simp [nodes]⟩

/-- A script of nodes that each `Suits` can be followed by another one. -/
theorem Suits.append {s t : Script} (hs : Suits P s) (ht : Suits P t) : Suits P (s ++ t) := by
  refine ⟨List.forall_mem_append.2 ⟨hs.items, ht.items⟩, ?_⟩
  simp only [nodes, List.flatMap_append]
  exact List.forall_mem_append.2 ⟨hs.inside, ht.inside⟩

/-- A block that is asked to be in a script as it is makes a script. -/
private theorem suits_block {b : Block} (h : P.item b) : Suits P [.block b] := by
  constructor
  · simpa using ⟨rfl, fun b' hb' => by cases hb'; exact h⟩
  · simp [nodes, Node.Suits]

/-- Every block of a script that `Suits` has one of the three places, and is as it is asked to be there. -/
theorem Suits.blocks {s : Script} (h : Suits P s) {b : Block} (hb : b ∈ Script.blocks s) :
    P.item b ∨ (∃ shape, P.opener shape b) ∨ ∃ flag opener inner, P.ender flag opener inner b := by
  -- a block stands in the script itself or directly in a mouth or a C block of it
  obtain hb | ⟨n, hn, hb⟩ := Node.exists_container (mem_blocks_iff.1 hb)
  · exact .inl ((h.items _ hb).block b rfl)
  · have hsuits := h.inside n hn
    cases n with
    | block b' => simp [Node.contents] at hb
    -- in a mouth it is one of the nodes that stand there
    | mouth c inner => exact .inl ((hsuits _ hb).block b rfl)
    | wrap shape contents =>
      obtain ⟨opener, branches, last, hwrap, hopener, hbranches, hlast⟩ := hsuits
      obtain ⟨-, rfl⟩ := Node.wrap.inj hwrap
      rcases List.mem_cons.1 hb with hb | hb
      · -- it opens the C block
        cases hb
        exact .inr (.inl ⟨_, hopener⟩)
      · -- or it ends one of the branches
        obtain ⟨branch, hbranch, hb⟩ := List.mem_flatMap.1 hb
        obtain rfl : b = branch.ender := by simpa [Branch.nodes] using hb
        rcases List.mem_append.1 hbranch with hbranch | hbranch
        · exact .inr (.inr ⟨_, _, _, (hbranches branch hbranch).ender⟩)
        · obtain rfl := List.mem_singleton.1 hbranch
          exact .inr (.inr ⟨_, _, _, hlast.ender⟩)

end Script

/-! ## Frames -/

/-- The `nodes` of a branch are its mouth, what is in it, and the block that ends it. -/
theorem Branch.flatMap_nodes (b : Branch) :
    b.nodes.flatMap Node.nodes =
      .mouth b.category b.inner :: (Script.nodes b.inner ++ [.block b.ender]) := by
  simp [Branch.nodes, Script.nodes]

/-- The `nodes` of a branch are as they are asked to be if what is in its mouth is. -/
private theorem Branch.inside_suits (b : Branch) (h : Script.Suits P b.inner) :
    ∀ n ∈ b.nodes.flatMap Node.nodes, n.Suits P := by
  intro n hn
  simp only [Branch.flatMap_nodes, List.mem_cons, List.mem_append, List.not_mem_nil,
    or_false] at hn
  rcases hn with rfl | hn | rfl
  · exact h.items
  · exact h.inside n hn
  · trivial

namespace Frame

/-- A C block that is `closedBy` a block that ends its last branch is as it is asked to be. -/
theorem Suits.closedBy {f : Frame} (hf : f.Suits P) {inner : List Node} (hinner : Script.Suits P inner)
    {closer : Block} (hcloser : P.ender .cEnd f.opener inner closer) :
    Script.Suits P [f.closedBy inner closer] := by
  -- the last branch is only now in place, so it joins those that suit already
  have hbranches : ∀ b ∈ f.branches ++ [⟨f.mouth, inner, closer⟩], Script.Suits P b.inner := by
    intro b hb
    rcases List.mem_append.1 hb with hb | hb
    · exact (hf.branches b hb).2
    · obtain rfl := List.mem_singleton.1 hb
      exact hinner
  -- the C block is no mouth, and what is inside it is looked at part by part
  constructor
  · simpa using ⟨rfl, by simp [Frame.closedBy, Node.cBlock]⟩
  · intro n hn
    simp only [Script.nodes, List.flatMap_cons, List.flatMap_nil, List.append_nil, Frame.closedBy,
      Node.cBlock, Node.nodes_wrap, Node.nodes_block, List.mem_cons, List.mem_append,
      List.not_mem_nil, or_false] at hn
    rcases hn with rfl | rfl | hn
    · -- the C block itself
      exact ⟨f.opener, f.branches, ⟨f.mouth, inner, closer⟩, rfl, hf.opener,
        fun b hb => (hf.branches b hb).1, hf.mouth, hcloser⟩
    · -- its opener
      trivial
    · -- something in one of its branches
      rw [List.flatMap_assoc, List.mem_flatMap] at hn
      obtain ⟨b, hb, hn⟩ := hn
      exact b.inside_suits (hbranches b hb) n hn

end Frame

/-! ## Nestings -/

namespace Nesting

/-- A layout still `Suits` the places when a block is placed in it that is as it is asked to be. -/
theorem Suits.place {n : Nesting} (h : n.Suits P) {b : Block} (hb : P.item b) :
    (n.place (.block b)).Suits P :=
  ⟨h.frames, h.inner.append (Script.suits_block hb)⟩

/-- A C block starts with `openWith`, and its opener has left its shape to it. -/
theorem Suits.openWith {n : Nesting} (h : n.Suits P) {b : Block}
    (hb : P.opener b.attrs.shape b.asOpener) : (n.openWith b).Suits P := by
  refine ⟨List.forall_mem_cons.2 ⟨?_, h.frames⟩, Script.suits_nil⟩
  -- what was in the innermost container now stands before the C block
  exact ⟨h.inner, hb, rfl, by simp⟩

/-- With `divideWith` the open branch is ended, and the next one starts empty. -/
theorem Suits.divideWith {f : Frame} {outer : List Frame} {inner : List Node}
    (h : Suits P ⟨f :: outer, inner⟩) {b : Block}
    (hb : P.ender .cElse f.opener inner (branchEnd ⟨f :: outer, inner⟩ f b)) :
    (Nesting.divideWith b ⟨f :: outer, inner⟩).Suits P := by
  obtain ⟨hf, houter⟩ := List.forall_mem_cons.1 h.frames
  refine ⟨List.forall_mem_cons.2 ⟨?_, houter⟩, Script.suits_nil⟩
  refine ⟨hf.before, hf.opener, rfl, ?_⟩
  -- the branch that is finished joins those before it
  refine List.forall_mem_append.2 ⟨hf.branches, ?_⟩
  simp only [List.mem_singleton, forall_eq]
  exact ⟨⟨hf.mouth, hb⟩, h.inner⟩

/-- With `closeWith` the last branch is ended, and the C block is placed. -/
theorem Suits.closeWith {f : Frame} {outer : List Frame} {inner : List Node}
    (h : Suits P ⟨f :: outer, inner⟩) {b : Block}
    (hb : P.ender .cEnd f.opener inner (branchEnd ⟨f :: outer, inner⟩ f b)) :
    (Nesting.closeWith b ⟨f :: outer, inner⟩).Suits P := by
  obtain ⟨hf, houter⟩ := List.forall_mem_cons.1 h.frames
  exact ⟨houter, hf.before.append (hf.closedBy h.inner hb)⟩

/-- The opener of the innermost C block is as it is asked to be. -/
theorem Suits.opener {f : Frame} {outer : List Frame} {inner : List Node}
    (h : Suits P ⟨f :: outer, inner⟩) : P.opener f.shape f.opener :=
  (h.frames f List.mem_cons_self).opener

/-- Implied ends complete a nesting to a `closed` script that is as it is asked to be. -/
theorem Suits.closed {Q : Block → Prop} (hP : P.KeptFor Q) {n : Nesting} (h : n.Suits P) :
    Script.Suits P n.closed := by
  refine (closed_induction (motive := Suits P) n h fun f outer inner ih => ?_).inner
  exact ih.closeWith (hP.ender _ _ _ _ _ (.inr rfl) (.inr rfl) rfl ih.opener)

end Nesting

/-! ## Layouts -/

namespace Layout

variable {Q : Block → Prop} (hP : P.KeptFor Q)

include hP

/-- The implied ends that complete a script are asked of no block. -/
theorem Suits.newScript {l : Layout} (h : l.Suits P) : l.newScript.Suits P := by
  unfold Layout.newScript
  split
  · exact h
  · refine ⟨List.forall_mem_append.2 ⟨h.scripts, ?_⟩, by simp, Script.suits_nil⟩
    simpa using h.nesting.closed hP

omit hP in
/-- So a block is placed in the layout. -/
theorem Suits.place {l : Layout} (h : l.Suits P) {b : Block} (hb : P.item b) : (l.place b).Suits P :=
  ⟨h.scripts, h.nesting.place hb⟩

/-- Whatever `Route` a block takes, the layout stays as it is asked to be. -/
theorem Route.suits {b : Block} {l l' : Layout} (route : Route b l l') (hb : Q b) (h : l.Suits P) :
    l'.Suits P := by
  cases route with
  -- a block with a script of its own, or after one that has come to its end
  | own hflag => exact ((h.newScript hP).place (hP.item b hb hflag)).newScript hP
  | first hflag _ _ => exact (h.newScript hP).place (hP.item b hb fun hc => absurd hc hflag)
  | next hflag _ _ => exact h.place (hP.item b hb fun hc => absurd hc hflag)
  | last hflag _ _ _ => exact (h.place (hP.item b hb fun hc => absurd hc hflag)).newScript hP
  -- the others change the nesting, and leave the finished scripts as they are
  | opens hflag => exact ⟨h.scripts, h.nesting.openWith (hP.opener b hb hflag)⟩
  -- what ends a branch is asked for with the opener of the innermost C block
  | divides f outer hflag inside =>
    obtain ⟨scripts, ⟨frames, inner⟩⟩ := l
    obtain rfl : frames = f :: outer := inside
    exact ⟨h.scripts, h.nesting.divideWith
      (hP.ender _ _ _ _ _ (.inl hb) (.inl rfl) hflag h.nesting.opener)⟩
  | closes f outer hflag inside =>
    obtain ⟨scripts, ⟨frames, inner⟩⟩ := l
    obtain rfl : frames = f :: outer := inside
    exact ⟨h.scripts, h.nesting.closeWith
      (hP.ender _ _ _ _ _ (.inl hb) (.inr rfl) hflag h.nesting.opener)⟩

/-- In every layout that comes of blocks with the property, all blocks are as their places ask. -/
theorem run_suits (moves : List Move) (h : ∀ b ∈ added moves, Q b) : (run moves).Suits P := by
  refine run_induction (motive := fun bs l => (∀ b ∈ bs, Q b) → l.Suits P) ?_ ?_ ?_ moves h
  · intro _
    exact ⟨by simp, by simp, Script.suits_nil⟩
  · intro bs l b ih hbs
    rw [List.forall_mem_append, List.forall_mem_singleton] at hbs
    exact (add_route b l).suits hP hbs.2 (ih hbs.1)
  · intro bs l ih hbs
    exact (ih hbs).newScript hP

end Layout

end BlockScript
