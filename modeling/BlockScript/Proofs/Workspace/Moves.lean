import Mathlib.Data.List.Induction
import BlockScript.Workspace.Layout

/-!
# Moves

A layout is changed in two ways: a block is added, or a new script is started. Every layout that can
come about is a run of such moves.

## Key results

- `Layout.add_route`: the seven ways in which adding a block can go, with what is known in each
- `Nesting.closed_step`: the script that a nesting comes to is reached by closing one C block at a time
- `Layout.run_induction`: what holds of the empty layout and is kept by every move holds of every run
-/

namespace BlockScript

/-! ## Closing what is open -/

namespace Nesting

/-- To complete a nesting to what is `closed` starts with an end for the innermost C block. -/
theorem closed_step (f : Frame) (outer : List Frame) (inner : List Node) :
    closed ⟨f :: outer, inner⟩ = closed (closeWith impliedEnd ⟨f :: outer, inner⟩) := rfl

/-- A property of nestings that implied ends keep holds of the `closed` script. -/
theorem closed_induction {motive : Nesting → Prop} (n : Nesting) (start : motive n)
    (close : ∀ f outer inner, motive ⟨f :: outer, inner⟩ →
      motive (closeWith impliedEnd ⟨f :: outer, inner⟩)) :
    motive ⟨[], n.closed⟩ := by
  -- closing changes what is in the innermost container, so that is left general
  obtain ⟨frames, inner⟩ := n
  induction frames generalizing inner with
  | nil => exact start
  | cons f outer ih =>
    rw [closed_step]
    exact ih _ (close f outer inner start)

/-- A nesting comes to an empty `closed` script only if nothing has been placed at all. -/
theorem closed_ne_nil {n : Nesting} (h : n.isEmpty = false) : n.closed ≠ [] := by
  -- as soon as a C block has been closed, its node is there
  apply closed_induction (motive := fun n => n.frames = [] → n.inner ≠ []) n
  · intro hflat hinner
    simp [isEmpty, hflat, hinner] at h
  · intro f outer inner _ _
    simp [closeWith]
  · rfl

theorem isFlat_iff (n : Nesting) : n.isFlat = true ↔ n.frames = [] := List.isEmpty_iff

end Nesting

/-! ## Blocks by their place in a script -/

namespace Block

/-- Whether a block starts a script: a hat or a header, if no flag gives it another part. -/
def startsScript (b : Block) : Bool :=
  b.attrs.flag == none && (b.attrs.shape == some .hat || b.attrs.shape == some .defineHat)

/-- Whether a block ends a script: a cap, if no flag gives it another part. -/
def endsScript (b : Block) : Bool := b.attrs.flag == none && b.attrs.shape == some .cap

/-- Whether a block has a script to itself: with a ring, or if it would fit into another block and no flag
    gives it another part. -/
def standsAlone (b : Block) : Bool :=
  b.attrs.flag == some .ring ||
    (b.attrs.flag == none && (b.attrs.shape == some .reporter || b.attrs.shape == some .boolean ||
      b.attrs.shape == some .embedded))

/-- A block that can stand in a C block: it neither starts a script nor stands alone. -/
structure Ordinary (b : Block) : Prop where
  start : b.startsScript = false
  alone : b.standsAlone = false

/-- A block that a script can go on behind: it neither ends one nor is a comment. -/
structure Going (b : Block) : Prop where
  ends : b.endsScript = false
  comment : b.isComment = false

/-- Blocks with a part in a C block are `Ordinary`. -/
theorem ordinary_of_flag {b : Block} {f : Flag} (h : b.attrs.flag = some f) (hring : f ≠ .ring) :
    b.Ordinary := by
  constructor
  · simp [startsScript, h]
  · simp [standsAlone, h, hring]

end Block

namespace Layout

/-! ## The routes of a block -/

/-- How a block can be added to a layout. Only the last three routes have to do with C blocks; a block
    that would open one takes another route only if it is a comment. -/
inductive Route (b : Block) (l : Layout) : Layout → Prop
  /-- It gets a script of its own. -/
  | own (h : b.attrs.flag = some .cStart → b.isComment = true) :
      Route b l ((l.newScript.place b).newScript)
  /-- It starts a script. -/
  | first (h : b.attrs.flag ≠ some .cStart) (ring : b.attrs.flag ≠ some .ring)
      (hat : b.attrs.shape = some .hat ∨ b.attrs.shape = some .defineHat) :
      Route b l (l.newScript.place b)
  /-- It goes on with what is there. -/
  | next (h : b.attrs.flag ≠ some .cStart) (ordinary : b.Ordinary)
      (going : l.nesting.frames = [] → b.Going) : Route b l (l.place b)
  /-- It goes on with a script and ends it. -/
  | last (h : b.attrs.flag ≠ some .cStart) (flat : l.nesting.frames = []) (ordinary : b.Ordinary)
      (comment : b.isComment = false) : Route b l (l.place b).newScript
  | opens (h : b.attrs.flag = some .cStart) : Route b l (l.nest (Nesting.openWith b))
  | divides (f : Frame) (outer : List Frame) (h : b.attrs.flag = some .cElse)
      (inside : l.nesting.frames = f :: outer) : Route b l (l.nest (Nesting.divideWith b))
  | closes (f : Frame) (outer : List Frame) (h : b.attrs.flag = some .cEnd)
      (inside : l.nesting.frames = f :: outer) : Route b l (l.nest (Nesting.closeWith b))

private theorem addByShape_route {b : Block} {l : Layout} (h : b.attrs.flag ≠ some .cStart)
    (hring : b.attrs.flag ≠ some .ring) (hcomment : l.nesting.frames = [] → b.isComment = false) :
    Route b l (l.addByShape b) := by
  have hown : b.attrs.flag = some .cStart → b.isComment = true := fun hc => absurd hc h
  unfold addByShape
  split
  · -- the hat of a script
    rename_i hshape
    exact .first h hring (.inl hshape)
  · -- the header of a defined block
    rename_i hshape
    exact .first h hring (.inr hshape)
  · -- a cap block ends the script only if no C block is open
    rename_i hshape
    have hordinary : b.Ordinary := by
      constructor
      · simp [Block.startsScript, hshape]
      · simp [Block.standsAlone, hshape, hring]
    by_cases hflat : l.nesting.frames = []
    · have hplaced : (l.place b).nesting.isFlat = true := (Nesting.isFlat_iff _).2 hflat
      simp only [hplaced, if_true]
      exact .last h hflat hordinary (hcomment hflat)
    · have hplaced : (l.place b).nesting.isFlat = false := by
        rw [Bool.eq_false_iff, ne_eq, Nesting.isFlat_iff]
        exact hflat
      simp only [hplaced, Bool.false_eq_true, if_false]
      exact .next h hordinary fun hnil => absurd hnil hflat
  · exact .own hown
  · exact .own hown
  · exact .own hown
  · -- any other shape goes on where it is
    rename_i hhat hdefine hcap hreporter hboolean hembedded
    apply Route.next h
    · constructor
      · simpa [Block.startsScript] using fun _ => ⟨hhat, hdefine⟩
      · simpa [Block.standsAlone, hring] using fun _ => ⟨⟨hreporter, hboolean⟩, hembedded⟩
    · intro hflat
      exact ⟨by simpa [Block.endsScript] using fun _ => hcap, hcomment hflat⟩

/-- A block with a part in a C block is placed like any other if no C block is open. -/
private theorem place_route {b : Block} {l : Layout} {f : Flag} (h : b.attrs.flag = some f)
    (hstart : f ≠ .cStart) (hring : f ≠ .ring) (hcomment : b.isComment = false) :
    Route b l (l.place b) := by
  apply Route.next
  · rw [h, ne_eq, Option.some.injEq]
    exact hstart
  · exact Block.ordinary_of_flag h hring
  · intro _
    exact ⟨by simp [Block.endsScript, h], hcomment⟩

/-- To `add` a block takes one of the ways of `Route`. -/
theorem add_route (b : Block) (l : Layout) : Route b l (l.add b) := by
  unfold add
  split
  · rename_i h
    simp only [Bool.and_eq_true] at h
    exact .own fun _ => h.1
  · rename_i h
    -- a comment that is not alone is in a C block
    have hcomment : l.nesting.frames = [] → b.isComment = false := by
      intro hflat
      simpa [Nesting.isFlat, hflat] using h
    split
    · -- it opens a C block
      rename_i hflag
      exact .opens hflag
    · -- it divides one
      rename_i hflag
      cases hframes : l.nesting.frames with
      | nil =>
        -- outside C blocks there is nothing to divide
        have hplace : l.nest (Nesting.divideWith b) = l.place b := by
          simp [nest, place, Nesting.divideWith, hframes]
        rw [hplace]
        exact place_route hflag (by decide) (by decide) (hcomment hframes)
      | cons f outer => exact .divides f outer hflag hframes
    · -- it closes one
      rename_i hflag
      cases hframes : l.nesting.frames with
      | nil =>
        have hplace : l.nest (Nesting.closeWith b) = l.place b := by
          simp [nest, place, Nesting.closeWith, hframes]
        rw [hplace]
        exact place_route hflag (by decide) (by decide) (hcomment hframes)
      | cons f outer => exact .closes f outer hflag hframes
    · -- it is drawn in a ring
      rename_i hflag
      exact .own fun hc => by simp [hflag] at hc
    · -- no flag decides about its place
      rename_i hstart _ _ hring
      exact addByShape_route hstart hring hcomment

/-- `newScript` leaves nothing open, and nothing placed. -/
theorem newScript_nesting (l : Layout) : l.newScript.nesting = {} := by
  unfold newScript
  split
  · rename_i h
    obtain ⟨scripts, ⟨frames, inner⟩⟩ := l
    simp only [Nesting.isEmpty, Bool.and_eq_true, List.isEmpty_iff] at h
    obtain ⟨rfl, rfl⟩ := h
    rfl
  · rfl

/-! ## Runs -/

/-- A change of a layout. -/
inductive Move where
  | add (b : Block)
  | newScript

/-- The block that a move adds. -/
def Move.block? : Move → Option Block
  | .add b => some b
  | .newScript => none

/-- The blocks that moves add, in order. -/
def added (moves : List Move) : List Block := moves.filterMap Move.block?

/-- Make a move. -/
def step (l : Layout) : Move → Layout
  | .add b => l.add b
  | .newScript => l.newScript

/-- Make moves one after the other, from a layout with nothing in it. -/
def run (moves : List Move) : Layout := moves.foldl step {}

/-- In a `run`, one more move is a step from where the others lead. -/
theorem run_append_singleton (moves : List Move) (m : Move) :
    run (moves ++ [m]) = (run moves).step m := by
  simp [run]

/-- To what is `added` it adds its block, if it has one. -/
theorem added_append_singleton (moves : List Move) (m : Move) :
    added (moves ++ [m]) = added moves ++ m.block?.toList := by
  cases m <;> simp [added, Move.block?]

/-- What holds at the start and is kept by every move holds after every `run`. -/
theorem run_induction {motive : List Block → Layout → Prop} (start : motive [] {})
    (add : ∀ bs l b, motive bs l → motive (bs ++ [b]) (l.add b))
    (newScript : ∀ bs l, motive bs l → motive bs l.newScript) (moves : List Move) :
    motive (added moves) (run moves) := by
  -- moves are made from the left, so the last one comes off first
  induction moves using List.reverseRecOn with
  | nil => exact start
  | append_singleton moves m ih =>
    rw [run_append_singleton, added_append_singleton]
    cases m with
    | add b => exact add _ _ b ih
    | newScript => simpa [Move.block?, step] using newScript _ _ ih

end Layout

end BlockScript
