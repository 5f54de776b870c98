import Mathlib.Logic.Function.Iterate
import BlockScript.Proofs.Workspace.Trace
import BlockScript.Proofs.Workspace.WellBuilt

/-!
# The stack of containers

The open C blocks of a nesting can also be looked at as a stack of containers. The innermost container
is on top and the script at the bottom; in between stand, for each open C block, what it holds and the
branch of it that is being filled. Adding to the container on top changes all those below, because each
of them holds the one above it.

## Key results

- `Nesting.stacked`: each container is what the last node of the one below it holds
- `Layout.add_ender_flat`, `Layout.add_ender_nested`: a block that ends a branch takes containers off the
  stack only if a C block is open
- `Layout.run_c_blocks_wellFormed`: so it is in every run, and every finished C block is well formed
-/

namespace BlockScript

namespace Nesting

/-! ## The containers -/

/-- The containers that the open C blocks and what is in the innermost one of them make up. -/
def stackFrom (inner : List Node) : List Frame → List (List Node)
  | [] => [inner]
  | f :: outer =>
    inner :: (f.done ++ [.mouth f.mouth inner]) :: stackFrom (f.before ++ [f.partially inner]) outer

/-- The containers of a nesting, the innermost one first. -/
def stack (n : Nesting) : List (List Node) := stackFrom n.inner n.frames

/-- A stack of containers as it has to be: the script, and on top of it for each open C block what it
    holds and then one of its branches. Each container is what the last node below it holds. -/
inductive Stacked : List (List Node) → Prop
  | script {s : List Node} (items : ∀ n ∈ s, n.isMouth = false) : Stacked [s]
  | branch {before inner contents : List Node} {shape : Option Shape} {opener : Block}
      {branches : List Branch} {mouth : Option Category} {below : List (List Node)}
      (items : ∀ n ∈ inner, n.isMouth = false)
      (opens : opener.attrs.flag = some .cStart) (stack : opener.attrs.shape = some .stack)
      (fits : ∀ b ∈ branches, b.Fits opener .cElse) (colour : mouth = opener.attrs.category)
      (holds : contents = .block opener :: branches.flatMap Branch.nodes ++ [.mouth mouth inner])
      (rest : Stacked ((before ++ [.wrap shape contents]) :: below)) :
      Stacked (inner :: contents :: (before ++ [.wrap shape contents]) :: below)

/-- An open C block is on the `stack` with its open mouth, below that with what is finished of it. -/
private theorem stack_cons (f : Frame) (outer : List Frame) (inner : List Node) :
    stack ⟨f :: outer, inner⟩ =
      inner :: (f.done ++ [.mouth f.mouth inner]) ::
        stack ⟨outer, f.before ++ [f.partially inner]⟩ := rfl

/-- The containers of a nesting that is `WellBuilt` are `Stacked`: they stand in each other. -/
theorem stacked {n : Nesting} (h : n.WellBuilt) : Stacked n.stack := by
  obtain ⟨hframes, hinner⟩ := h
  -- of what is inside only the items are needed, which an open C block leaves as they are
  replace hinner := hinner.items
  obtain ⟨frames, inner⟩ := n
  induction frames generalizing inner with
  | nil => exact .script hinner
  | cons f outer ih =>
    obtain ⟨hf, houter⟩ := List.forall_mem_cons.1 hframes
    have hbelow : ∀ n ∈ f.before ++ [f.partially inner], n.isMouth = false := by
      refine List.forall_mem_append.2 ⟨hf.before.items, ?_⟩
      simp [Frame.partially, Node.isMouth]
    have hfits : ∀ b ∈ f.branches, b.Fits f.opener .cElse := fun b hb => (hf.branches b hb).1
    have hrest := ih _ houter hbelow
    rw [stack_cons]
    -- the container below shows its last node only when it is known what is below that
    cases outer with
    | nil => exact .branch hinner hf.opens hf.stack hfits hf.mouth rfl hrest
    | cons g outer => exact .branch hinner hf.opens hf.stack hfits hf.mouth rfl hrest

/-! ## The height of the stack -/

/-- On the `stack` each open C block takes up two containers. -/
theorem length_stack (n : Nesting) : n.stack.length = 2 * n.frames.length + 1 := by
  obtain ⟨frames, inner⟩ := n
  induction frames generalizing inner with
  | nil => rfl
  | cons f outer ih =>
    have hbelow := ih (f.before ++ [f.partially inner])
    simp only [stack_cons, List.length_cons] at hbelow ⊢
    omega

/-- Only with nothing open is there a single list on the `stack`. -/
theorem length_stack_eq_one_iff (n : Nesting) : n.stack.length = 1 ↔ n.frames = [] := by
  have hlength := n.length_stack
  rw [← List.length_eq_zero_iff]
  omega

/-! ## The bottom of the stack -/

/-- At the bottom of the `stack` stands the script with its C blocks as far as they have got. -/
theorem getLast?_stack (n : Nesting) : n.stack.getLast? = some n.soFar := by
  obtain ⟨frames, inner⟩ := n
  induction frames generalizing inner with
  | nil => rfl
  | cons f outer ih =>
    have hbelow := ih (f.before ++ [f.partially inner])
    rw [stack_cons, List.getLast?_cons, List.getLast?_cons, hbelow]
    rfl

/-- A script is empty if nothing has been placed in it; an open C block would be something. -/
private theorem soFar_eq_nil_iff (n : Nesting) : n.soFar = [] ↔ n.frames = [] ∧ n.inner = [] := by
  obtain ⟨frames, inner⟩ := n
  induction frames generalizing inner with
  | nil => simp [soFar, soFarFrom]
  | cons f outer ih =>
    have hbelow := ih (f.before ++ [f.partially inner])
    have hsoFar : soFar ⟨f :: outer, inner⟩ = soFar ⟨outer, f.before ++ [f.partially inner]⟩ := rfl
    rw [hsoFar, hbelow]
    simp

/-- To see whether anything has been placed it is enough to look at the script at the bottom. -/
private theorem isEmpty_iff_soFar (n : Nesting) : n.isEmpty = true ↔ n.soFar = [] := by
  rw [soFar_eq_nil_iff, isEmpty, Bool.and_eq_true, List.isEmpty_iff, List.isEmpty_iff]

/-! ## Taking containers off the stack -/

/-- By `divideWith`, the end of a branch pops a mouth and pushes the next one. -/
theorem length_stack_divideWith (b : Block) {n : Nesting} (h : n.frames ≠ []) :
    (n.divideWith b).stack.length = n.stack.length := by
  obtain ⟨frames, inner⟩ := n
  cases frames with
  | nil => exact absurd rfl h
  | cons f outer => simp [divideWith, length_stack]

/-- By `closeWith`, the end of a C block pops its mouth and itself. -/
theorem length_stack_closeWith (b : Block) {n : Nesting} (h : n.frames ≠ []) :
    (n.closeWith b).stack.length + 2 = n.stack.length := by
  obtain ⟨frames, inner⟩ := n
  cases frames with
  | nil => exact absurd rfl h
  | cons f outer => simp only [closeWith, length_stack, List.length_cons]; omega

/-- With it one C block less is open, if any is. -/
private theorem length_frames_closeWith (b : Block) (n : Nesting) :
    (n.closeWith b).frames.length = n.frames.length - 1 := by
  obtain ⟨frames, inner⟩ := n
  cases frames <;> rfl

/-- Repeated, `closeWith` closes as many as there are. -/
theorem length_frames_iterate_closeWith (b : Block) (n : Nesting) (k : Nat) :
    ((closeWith b)^[k] n).frames.length = n.frames.length - k := by
  induction k with
  | zero => rfl
  | succ k ih =>
    rw [Function.iterate_succ_apply', length_frames_closeWith, ih]
    omega

/-- A script is completed by one `impliedEnd` for each open C block. -/
theorem iterate_closeWith_eq_closed (n : Nesting) :
    (closeWith impliedEnd)^[n.frames.length] n = ⟨[], n.closed⟩ := by
  obtain ⟨frames, inner⟩ := n
  induction frames generalizing inner with
  | nil => rfl
  | cons f outer ih => exact ih _

/-- While a script is completed, an `impliedEnd` always finds a C block to close. -/
theorem one_lt_length_stack_iterate (n : Nesting) {k : Nat} (h : k < n.frames.length) :
    1 < ((closeWith impliedEnd)^[k] n).stack.length := by
  rw [length_stack, length_frames_iterate_closeWith]
  omega

end Nesting

namespace Layout

/-- A new script stands alone on the `stack`. -/
private theorem stack_newScript (l : Layout) : l.newScript.nesting.stack = [[]] := by
  rw [newScript_nesting]
  rfl

/-- With the script alone on the stack there is no branch to end, and `add` places the block like any
    other. -/
theorem add_ender_flat {b : Block} (hb : b.attrs.flag = some .cElse ∨ b.attrs.flag = some .cEnd)
    {l : Layout} (h : l.nesting.frames = []) :
    l.add b = if b.isComment then l.placeAlone b else l.place b := by
  have hflat : l.nesting.isFlat = true := (Nesting.isFlat_iff _).2 h
  rcases hb with hb | hb
  · simp [add, hb, hflat, nest, place, Nesting.divideWith, h]
  · simp [add, hb, hflat, nest, place, Nesting.closeWith, h]

/-- Inside a C block `add` never places a block that ends a branch like any other. -/
theorem add_ender_nested {b : Block} {l : Layout} (h : l.nesting.frames ≠ []) :
    (b.attrs.flag = some .cElse → l.add b = l.nest (Nesting.divideWith b)) ∧
      (b.attrs.flag = some .cEnd → l.add b = l.nest (Nesting.closeWith b)) := by
  have hflat : l.nesting.isFlat = false := by
    rw [Bool.eq_false_iff, ne_eq, Nesting.isFlat_iff]
    exact h
  constructor
  · intro hb
    simp [add, hb, hflat]
  · intro hb
    simp [add, hb, hflat]

/-- A `wrap` in a finished script was opened by a block that has been `added`, and has the shape that this
    block had. -/
theorem run_wrap (moves : List Move) {s : Script} (hs : s ∈ (run moves).scripts)
    {shape : Option Shape} {contents : List Node} (hw : .wrap shape contents ∈ Script.nodes s) :
    ∃ b ∈ added moves, b.attrs.flag = some .cStart ∧ shape = b.attrs.shape ∧
      ∃ branches last,
        Node.wrap shape contents = .cBlock b.attrs.shape b.asOpener (branches ++ [last]) ∧
          (∀ x ∈ branches, x.Fits b.asOpener .cElse) ∧ last.Fits b.asOpener .cEnd := by
  obtain ⟨opener, branches, last, hwrap, -, -, hbranches, hlast⟩ :=
    ((run_wellBuilt moves).scripts s hs).inside _ hw
  -- the opener is a part of the layout, and each part has been added by a move
  have hread : (.opens shape, opener) ∈ (run moves).parts := by
    obtain ⟨-, rfl⟩ := Node.wrap.inj hwrap
    refine List.mem_append_left _ (List.mem_flatMap.2 ⟨s, hs, ?_⟩)
    exact Script.opener_mem_parts hw
  obtain ⟨b, hb, hflag, rfl, rfl⟩ := (run_trace moves).opener_added hread
  exact ⟨b, hb, hflag, rfl, branches, last, hwrap, hbranches, hlast⟩

/-- In every `run` the containers on the `stack` stand in each other, with the script at the bottom, which is
    not empty while a C block is open; a block that ends a branch takes containers off the `stack` only if a C
    block is open, and so do the implied ends of `newScript`. Therefore mouths occur in C blocks alone, and
    every `wrap` in a finished script is a `cBlock`: its opener, in the stack shape, then branches that blocks
    divide, and at last the block that closes it. It has the shape that its opener had when it was `added`. -/
theorem run_c_blocks_wellFormed (moves : List Move) :
    (Nesting.Stacked (run moves).nesting.stack ∧ (run moves).nesting.stack.length % 2 = 1 ∧
      (run moves).nesting.stack.getLast? = some (run moves).nesting.soFar ∧
      (1 < (run moves).nesting.stack.length → (run moves).nesting.soFar ≠ []) ∧
      ((run moves).nesting.isEmpty = true ↔ (run moves).nesting.soFar = [])) ∧
    (∀ b : Block, b.attrs.flag = some .cElse ∨ b.attrs.flag = some .cEnd →
      ((run moves).nesting.stack.length = 1 →
        (run moves).add b =
          if b.isComment then (run moves).placeAlone b else (run moves).place b) ∧
      (1 < (run moves).nesting.stack.length →
        ((run moves).add b).nesting.stack.length + (if b.attrs.flag = some .cElse then 0 else 2) =
          (run moves).nesting.stack.length)) ∧
    ((∀ k < (run moves).nesting.frames.length,
        1 < ((Nesting.closeWith impliedEnd)^[k] (run moves).nesting).stack.length) ∧
      (Nesting.closeWith impliedEnd)^[(run moves).nesting.frames.length] (run moves).nesting =
        ⟨[], (run moves).nesting.closed⟩ ∧
      (run moves).newScript.nesting.stack = [[]]) ∧
    (∀ s ∈ (run moves).scripts, (∀ n ∈ s, n.isMouth = false) ∧
      (∀ c inner, .mouth c inner ∈ Script.nodes s → ∀ n ∈ inner, n.isMouth = false) ∧
      ∀ shape contents, .wrap shape contents ∈ Script.nodes s →
        ∃ b ∈ added moves, b.attrs.flag = some .cStart ∧ shape = b.attrs.shape ∧
          ∃ branches last,
            Node.wrap shape contents = .cBlock b.attrs.shape b.asOpener (branches ++ [last]) ∧
              (∀ x ∈ branches, x.Fits b.asOpener .cElse) ∧ last.Fits b.asOpener .cEnd) := by
  have hbuilt := run_wellBuilt moves
  -- more than one container means that a C block is open
  have hnested : 1 < (run moves).nesting.stack.length → (run moves).nesting.frames ≠ [] := by
    intro h
    rw [ne_eq, ← Nesting.length_stack_eq_one_iff]
    omega
  -- each part has a lemma of its own; what is left ties them to the height of the stack
  refine ⟨⟨Nesting.stacked hbuilt.nesting, ?_, Nesting.getLast?_stack _, ?_,
    Nesting.isEmpty_iff_soFar _⟩, ?_, ⟨?_, Nesting.iterate_closeWith_eq_closed _,
    stack_newScript _⟩, ?_⟩
  · rw [Nesting.length_stack]
    omega
  · intro h hsoFar
    exact hnested h ((Nesting.soFar_eq_nil_iff _).1 hsoFar).1
  · -- a block that ends a branch, with nothing open and with something open
    intro b hb
    refine ⟨fun h => add_ender_flat hb ((Nesting.length_stack_eq_one_iff _).1 h), fun h => ?_⟩
    obtain ⟨hdivides, hcloses⟩ := add_ender_nested (b := b) (hnested h)
    rcases hb with hb | hb
    · rw [hdivides hb]
      simpa [nest, hb] using Nesting.length_stack_divideWith b (hnested h)
    · rw [hcloses hb]
      simpa [nest, hb] using Nesting.length_stack_closeWith b (hnested h)
  · exact fun k hk => Nesting.one_lt_length_stack_iterate _ hk
  · intro s hs
    have hscript := hbuilt.scripts s hs
    exact ⟨hscript.items, fun c inner hm => hscript.inside _ hm, fun shape contents hw =>
      run_wrap moves hs hw⟩

end Layout

end BlockScript
