import BlockScript.Proofs.Workspace.Places

/-!
# C blocks are well built

In a layout that runs come to, mouths stand in C blocks only, and every C block is its opener, then
branches with a mouth and a block that ends them: blocks that divide it, and at last one that closes
it. All of them are in the category of the opener.

## Key results

- `Node.WellBuilt.flag_ne_none`: what stands directly in a C block has a part in it
- `Layout.run_wellBuilt`: everything in a layout is well built
-/

namespace BlockScript

/-! ## What is required -/

/-- A branch as it has to be in a C block with the given opener: the block that ends it has the given
    flag, and all of it is in one category. -/
structure Branch.Fits (opener : Block) (flag : Flag) (b : Branch) : Prop where
  flag : b.ender.attrs.flag = some flag
  mouth : b.category = opener.attrs.category
  ender : b.ender.attrs.category = opener.attrs.category

/-- A node as it has to be, whatever is inside it: mouths stand in C blocks alone, and a C block is
    built of an opener, branches that another one follows, and a last branch. -/
def Node.WellBuilt : Node → Prop
  | .block _ => True
  | .mouth _ inner => ∀ n ∈ inner, n.isMouth = false
  | .wrap shape contents =>
    ∃ opener branches last,
      Node.wrap shape contents = cBlock shape opener (branches ++ [last]) ∧
        opener.attrs.flag = some .cStart ∧ opener.attrs.shape = some .stack ∧
        (∀ b ∈ branches, b.Fits opener .cElse) ∧ last.Fits opener .cEnd

/-- Nodes that stand in a script or in a mouth: blocks and C blocks, well built at any depth. -/
structure Script.WellBuilt (s : Script) : Prop where
  items : ∀ n ∈ s, n.isMouth = false
  inside : ∀ n ∈ Script.nodes s, n.WellBuilt

/-- An open C block as it has to be so far. -/
structure Frame.WellBuilt (f : Frame) : Prop where
  before : Script.WellBuilt f.before
  opens : f.opener.attrs.flag = some .cStart
  stack : f.opener.attrs.shape = some .stack
  mouth : f.mouth = f.opener.attrs.category
  branches : ∀ b ∈ f.branches, b.Fits f.opener .cElse ∧ Script.WellBuilt b.inner

/-- A nesting as it has to be. -/
structure Nesting.WellBuilt (n : Nesting) : Prop where
  frames : ∀ f ∈ n.frames, f.WellBuilt
  inner : Script.WellBuilt n.inner

/-- A layout as it has to be. -/
structure Layout.WellBuilt (l : Layout) : Prop where
  scripts : ∀ s ∈ l.scripts, Script.WellBuilt s
  nesting : l.nesting.WellBuilt

/-- What stands directly in a C block that is `WellBuilt` opens it or ends one of its branches, and has the
    flag for that. -/
theorem Node.WellBuilt.flag_ne_none {shape : Option Shape} {contents : List Node}
    (h : (Node.wrap shape contents).WellBuilt) {b : Block} (hb : .block b ∈ contents) :
    b.attrs.flag ≠ none := by
  obtain ⟨opener, branches, last, hwrap, hopens, -, hbranches, hlast⟩ := h
  obtain ⟨-, rfl⟩ := Node.wrap.inj hwrap
  rcases List.mem_cons.1 hb with hb | hb
  · cases hb
    simp [hopens]
  · obtain ⟨branch, hbranch, hb⟩ := List.mem_flatMap.1 hb
    obtain rfl : b = branch.ender := by simpa [Branch.nodes] using hb
    -- a branch that another one follows, or the last one
    rcases List.mem_append.1 hbranch with hbranch | hbranch
    · simp [(hbranches branch hbranch).flag]
    · obtain rfl := List.mem_singleton.1 hbranch
      simp [hlast.flag]

/-! ## Everything is well built -/

/-- What well built C blocks ask of blocks by their places. -/
def Places.built : Places where
  item _ := True
  opener _ b := b.attrs.flag = some .cStart ∧ b.attrs.shape = some .stack
  ender flag opener _ b := b.attrs.flag = some flag ∧ b.attrs.category = opener.attrs.category

/-- The places in `built` are kept for every block. -/
theorem Places.built_keptFor : built.KeptFor fun _ => True :=
  ⟨fun _ _ _ => trivial, fun _ _ hflag => ⟨hflag, rfl⟩, fun _ _ _ _ _ _ _ hflag _ => ⟨hflag, rfl⟩⟩

/-- A branch that suits these places `Fits`. -/
theorem Branch.Suits.fits {b : Branch} {opener : Block} {flag : Flag}
    (h : b.Suits .built opener flag) : b.Fits opener flag :=
  ⟨h.ender.1, h.mouth, h.ender.2⟩

/-- A node that suits them is `WellBuilt`. -/
private theorem Node.Suits.wellBuilt {n : Node} (h : n.Suits .built) : n.WellBuilt := by
  cases n with
  | block b => trivial
  | mouth c inner => exact fun n hn => (h n hn).notMouth
  | wrap shape contents =>
    obtain ⟨opener, branches, last, hwrap, ⟨hflag, hshape⟩, hbranches, hlast⟩ := h
    exact ⟨opener, branches, last, hwrap, hflag, hshape, fun b hb => (hbranches b hb).fits, hlast.fits⟩

/-- A script that `Suits` the places for being built is `WellBuilt`. -/
private theorem Script.Suits.wellBuilt {s : Script} (h : Script.Suits .built s) : Script.WellBuilt s :=
  ⟨fun n hn => (h.items n hn).notMouth, fun n hn => (h.inside n hn).wellBuilt⟩

/-- An open C block that `Suits` the places for being built is `WellBuilt`. -/
private theorem Frame.Suits.wellBuilt {f : Frame} (h : f.Suits .built) : f.WellBuilt :=
  ⟨h.before.wellBuilt, h.opener.1, h.opener.2, h.mouth,
    fun b hb => ⟨(h.branches b hb).1.fits, (h.branches b hb).2.wellBuilt⟩⟩

/-- Every `run` of moves leads to a layout that is `WellBuilt`. -/
theorem Layout.run_wellBuilt (moves : List Move) : (run moves).WellBuilt := by
  have hsuits := run_suits Places.built_keptFor moves fun _ _ => trivial
  exact ⟨fun s hs => (hsuits.scripts s hs).wellBuilt,
    fun f hf => (hsuits.nesting.frames f hf).wellBuilt, hsuits.nesting.inner.wellBuilt⟩

end BlockScript
