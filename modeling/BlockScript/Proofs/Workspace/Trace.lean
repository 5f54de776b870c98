import Mathlib.Data.List.Forall2
import BlockScript.Proofs.Script.Forest
import BlockScript.Proofs.Workspace.Moves

/-!
# Reading a layout back

The parts of a layout are read in the order of the text: finished scripts first, then the script that is
being put together, from the outside in. A *trace* says which parts can be read when some blocks have
been added: one part for each block, in order, and ends that nobody wrote in between. The number of C
blocks that are still open is counted along with it.

## Key results

- `Layout.run_trace`: every run leaves a trace of the blocks that it adds
- `Layout.Trace.settled`: without the implied ends, the parts are the added blocks one by one
- `Layout.Trace.closes_add_depth`: C blocks that are closed or open are as many as were opened
-/

namespace BlockScript

/-! ## How a block is placed -/

namespace Block

/-- `asOpener`, a block leaves its shape to the C block. -/
def asOpener (b : Block) : Block := { b with attrs := { b.attrs with shape := some .stack } }

/-- `asEnder` of a branch, a block gets its category and its mark. -/
def asEnder (category : Option Category) (capEnd : Bool) (b : Block) : Block :=
  { b with attrs := { b.attrs with category := category, capEnd := capEnd } }

/-- Whether a block is an end that nobody wrote. -/
def isImplied (b : Block) : Bool := b == impliedEnd.asEnder b.attrs.category b.attrs.capEnd

/-- A block `isImplied` if it is an implied end but for its category and its mark. -/
theorem isImplied_iff (b : Block) : b.isImplied = true ↔ ∃ c e, b = impliedEnd.asEnder c e := by
  constructor
  · intro h
    exact ⟨_, _, by simpa [isImplied] using h⟩
  · rintro ⟨c, e, rfl⟩
    simp [isImplied, asEnder]

/-- A block that `isImplied` is in no language. -/
theorem isImplied_lang (b : Block) (h : b.isImplied = true) :
    b.attrs.flag = some .cEnd ∧ b.attrs.lang = none := by
  obtain ⟨c, e, rfl⟩ := (isImplied_iff b).1 h
  exact ⟨rfl, rfl⟩

/-- What sets the blocks that lines give apart from an implied end, and comments apart from the blocks
    that open something. -/
structure Written (b : Block) : Prop where
  lang : b.attrs.flag = some .cEnd → b.attrs.lang ≠ none
  comment : b.isComment = true → b.attrs.flag = none

/-- A block that is `Written` and opens a C block only as a comment opens none. -/
private theorem Written.not_opener {b : Block} (hw : b.Written)
    (h : b.attrs.flag = some .cStart → b.isComment = true) : b.attrs.flag ≠ some .cStart := by
  intro hc
  have hnone := hw.comment (h hc)
  simp [hnone] at hc

/-- What becomes of a block when it is laid out: the end of a branch may get another category and a
    mark, an opener leaves its shape to the C block, and nothing else changes. -/
structure Settled (b b' : Block) : Prop where
  pieces : b'.pieces = b.pieces
  attrs : b'.attrs = { b.attrs with
    category := b'.attrs.category, shape := b'.attrs.shape, capEnd := b'.attrs.capEnd }
  shape : b'.attrs.shape = if b.attrs.flag = some .cStart then some .stack else b.attrs.shape
  unlessEnder : b.attrs.flag ≠ some .cElse → b.attrs.flag ≠ some .cEnd →
    b'.attrs.category = b.attrs.category ∧ b'.attrs.capEnd = b.attrs.capEnd

namespace Settled

/-- A `Settled` block keeps its flag. -/
theorem flag_eq {b b' : Block} (h : Settled b b') : b'.attrs.flag = b.attrs.flag := by
  rw [h.attrs]

/-- A block that is `Settled` keeps its language. -/
private theorem lang_eq {b b' : Block} (h : Settled b b') : b'.attrs.lang = b.attrs.lang := by
  rw [h.attrs]

/-- A block that opens nothing may stay as it is, by `Settled`. -/
theorem refl (b : Block) (h : b.attrs.flag ≠ some .cStart) : Settled b b :=
  ⟨rfl, rfl, by simp [h], fun _ _ => ⟨rfl, rfl⟩⟩

/-- An opener leaves its shape to the C block. -/
theorem asOpener (b : Block) (h : b.attrs.flag = some .cStart) : Settled b b.asOpener :=
  ⟨rfl, rfl, by simp [h, Block.asOpener], fun _ _ => ⟨rfl, rfl⟩⟩

/-- The end of a branch gets its category and its mark. -/
theorem asEnder (b : Block) (c : Option Category) (e : Bool)
    (h : b.attrs.flag = some .cElse ∨ b.attrs.flag = some .cEnd) : Settled b (b.asEnder c e) := by
  refine ⟨rfl, rfl, ?_, ?_⟩
  · have hstart : b.attrs.flag ≠ some .cStart := by
      rcases h with h | h <;> simp [h]
    simp [hstart, Block.asEnder]
  · intro helse hend
    exact absurd h (by simp [helse, hend])

/-- A `Written` block is told from an implied end also when it has been `Settled`. -/
private theorem not_isImplied {b b' : Block} (h : Settled b b') (hb : b.Written) :
    b'.isImplied = false := by
  rw [Bool.eq_false_iff]
  intro himplied
  -- laying out keeps flag and language, and no line gives those of an implied end
  obtain ⟨hflag, hlang⟩ := isImplied_lang b' himplied
  rw [h.flag_eq] at hflag
  rw [h.lang_eq] at hlang
  exact hb.lang hflag hlang

end Settled

end Block

/-! ## The parts of a layout -/

/-- The parts of an open C block: what stands before it, its opener, and its finished branches. -/
def Frame.parts (f : Frame) : List (Part × Block) :=
  Script.parts f.before ++ (.opens f.shape, f.opener) :: Node.branchParts f.branches

namespace Nesting

/-- The parts of a nesting, from the outside in. -/
def parts (n : Nesting) : List (Part × Block) :=
  n.frames.reverse.flatMap Frame.parts ++ Script.parts n.inner

@[simp] theorem parts_place (node : Node) (n : Nesting) :
    (n.place node).parts = n.parts ++ node.parts := by
  simp [parts, place, Script.parts]

@[simp] theorem parts_openWith (b : Block) (n : Nesting) :
    (n.openWith b).parts = n.parts ++ [(.opens b.attrs.shape, b.asOpener)] := by
  simp [parts, openWith, Frame.parts, Script.parts, Node.branchParts, Block.asOpener]

/-- A block that ends a branch adds one part, as it settles in the place. -/
private theorem parts_divideWith (b : Block) (f : Frame) (outer : List Frame) (inner : List Node) :
    (divideWith b ⟨f :: outer, inner⟩).parts =
      parts ⟨f :: outer, inner⟩ ++ [(.divides, branchEnd ⟨f :: outer, inner⟩ f b)] := by
  simp [parts, divideWith, Frame.parts, Script.parts]

/-- `closeWith` leaves the `parts` as they are, and puts the end behind them. -/
theorem parts_closeWith (b : Block) (f : Frame) (outer : List Frame) (inner : List Node) :
    (closeWith b ⟨f :: outer, inner⟩).parts =
      parts ⟨f :: outer, inner⟩ ++ [(.closes, branchEnd ⟨f :: outer, inner⟩ f b)] := by
  simp [parts, closeWith, Frame.parts, Frame.closedBy, Script.parts, Node.parts_cBlock]

/-- `branchEnd` changes nothing but the category and the mark of a block. -/
theorem branchEnd_eq (n : Nesting) (f : Frame) (b : Block) :
    n.branchEnd f b = b.asEnder f.opener.attrs.category (b.attrs.capEnd || n.endsInCap) := rfl

end Nesting

namespace Layout

/-- The parts of a layout, in the order of the text. -/
def parts (l : Layout) : List (Part × Block) := l.scripts.flatMap Script.parts ++ l.nesting.parts

/-- The number of C blocks that are open. -/
def depth (l : Layout) : Nat := l.nesting.frames.length

/-! ## Traces -/

/-- The parts that can be read when the given blocks have been added one after the other, and the
    number of C blocks that are open then. -/
inductive Trace : List Block → List (Part × Block) → Nat → Prop
  | nil : Trace [] [] 0
  | alone {bs ps d} (b : Block) (h : b.attrs.flag = some .cStart → b.isComment = true) :
      Trace bs ps d → Trace (bs ++ [b]) (ps ++ [(.alone, b)]) d
  | opens {bs ps d} (b : Block) (h : b.attrs.flag = some .cStart) :
      Trace bs ps d → Trace (bs ++ [b]) (ps ++ [(.opens b.attrs.shape, b.asOpener)]) (d + 1)
  | divides {bs ps d} (b : Block) (c : Option Category) (e : Bool)
      (h : b.attrs.flag = some .cElse) :
      Trace bs ps (d + 1) → Trace (bs ++ [b]) (ps ++ [(.divides, b.asEnder c e)]) (d + 1)
  | closes {bs ps d} (b : Block) (c : Option Category) (e : Bool)
      (h : b.attrs.flag = some .cEnd) :
      Trace bs ps (d + 1) → Trace (bs ++ [b]) (ps ++ [(.closes, b.asEnder c e)]) d
  /-- An end that nobody wrote closes a C block, and no block has been added for it. -/
  | implied {bs ps d} (c : Option Category) (e : Bool) :
      Trace bs ps (d + 1) → Trace bs (ps ++ [(.closes, impliedEnd.asEnder c e)]) d

/-! ### Every run leaves a trace -/

/-- Completing a script adds implied ends for the C blocks that are open. -/
private theorem trace_closed (bs : List Block) (scripts : List Script) (n : Nesting)
    (h : Trace bs (parts ⟨scripts, n⟩) n.frames.length) :
    Trace bs (parts ⟨scripts ++ [n.closed], {}⟩) 0 := by
  have hclosed : Trace bs (parts ⟨scripts, ⟨[], n.closed⟩⟩) 0 := by
    refine Nesting.closed_induction
      (motive := fun n => Trace bs (parts ⟨scripts, n⟩) n.frames.length) n h ?_
    intro f outer inner ih
    simp only [parts, Nesting.parts_closeWith, Nesting.branchEnd_eq, ← List.append_assoc]
    exact .implied _ _ ih
  simpa [parts, Nesting.parts, Script.parts] using hclosed

/-- `newScript` keeps the `Trace` of the blocks added. -/
private theorem trace_newScript {bs : List Block} {l : Layout} (h : Trace bs l.parts l.depth) :
    Trace bs l.newScript.parts l.newScript.depth := by
  unfold newScript
  split
  · exact h
  · exact trace_closed bs l.scripts l.nesting h

/-- A block that is placed adds itself. -/
private theorem trace_place {bs : List Block} {l : Layout} (b : Block)
    (hb : b.attrs.flag = some .cStart → b.isComment = true) (h : Trace bs l.parts l.depth) :
    Trace (bs ++ [b]) (l.place b).parts (l.place b).depth := by
  have hparts : (l.place b).parts = l.parts ++ [(.alone, b)] := by
    simp [parts, place, nest]
  rw [hparts]
  exact .alone b hb h

/-- Whatever `Route` a block takes, its part is added to the trace. -/
theorem Route.trace {bs : List Block} {b : Block} {l l' : Layout} (route : Route b l l')
    (h : Trace bs l.parts l.depth) : Trace (bs ++ [b]) l'.parts l'.depth := by
  -- a route that starts a new script implies the ends of the old one, and the others add one part
  cases route with
  | own hb => exact trace_newScript (trace_place b hb (trace_newScript h))
  | first hb _ _ => exact trace_place b (fun hc => absurd hc hb) (trace_newScript h)
  | next hb _ _ => exact trace_place b (fun hc => absurd hc hb) h
  | last hb _ _ _ => exact trace_newScript (trace_place b (fun hc => absurd hc hb) h)
  | opens hb =>
    have hparts : (l.nest (Nesting.openWith b)).parts =
        l.parts ++ [(.opens b.attrs.shape, b.asOpener)] := by
      simp [parts, nest]
    rw [hparts]
    exact .opens b hb h
  -- the end of a branch is added as it settles there
  | divides f outer hb inside =>
    obtain ⟨scripts, ⟨frames, inner⟩⟩ := l
    obtain rfl : frames = f :: outer := inside
    simp only [parts, nest, Nesting.parts_divideWith, Nesting.branchEnd_eq, ← List.append_assoc]
    exact .divides b _ _ hb h
  | closes f outer hb inside =>
    obtain ⟨scripts, ⟨frames, inner⟩⟩ := l
    obtain rfl : frames = f :: outer := inside
    simp only [parts, nest, Nesting.parts_closeWith, Nesting.branchEnd_eq, ← List.append_assoc]
    exact .closes b _ _ hb h

/-- Every `run` leaves a `Trace` of the blocks that it adds. -/
theorem run_trace (moves : List Move) :
    Trace (added moves) (run moves).parts (run moves).depth :=
  run_induction (motive := fun bs l => Trace bs l.parts l.depth) .nil
    (fun _ l b h => (add_route b l).trace h) (fun _ _ h => trace_newScript h) moves

/-! ### What a trace tells -/

/-- In a `Trace`, as many C blocks are closed or still open as were opened. -/
theorem Trace.closes_add_depth {bs : List Block} {ps : List (Part × Block)} {d : Nat}
    (h : Trace bs ps d) :
    ps.countP (·.1 = .closes) + d = ps.countP (·.1.isOpening) := by
  induction h with
  | nil => rfl
  | alone b hb _ ih => simpa using ih
  | opens b hb _ ih => simp; omega
  | divides b c e hb _ ih => simpa using ih
  | closes b c e hb _ ih => simp; omega
  | implied c e _ ih => simp; omega

/-- What opens a C block has been added, and the C block has the `shape` that it had. -/
theorem Trace.opener_added {bs : List Block} {ps : List (Part × Block)} {d : Nat}
    (h : Trace bs ps d) {s : Option Shape} {opener : Block} (hp : (.opens s, opener) ∈ ps) :
    ∃ b ∈ bs, b.attrs.flag = some .cStart ∧ s = b.attrs.shape ∧ opener = b.asOpener := by
  -- blocks that are added later take nothing back
  have hlater : ∀ {bs : List Block} (b' : Block),
      (∃ b ∈ bs, b.attrs.flag = some .cStart ∧ s = b.attrs.shape ∧ opener = b.asOpener) →
      ∃ b ∈ bs ++ [b'], b.attrs.flag = some .cStart ∧ s = b.attrs.shape ∧ opener = b.asOpener := by
    rintro bs b' ⟨b, hb, h⟩
    exact ⟨b, List.mem_append_left _ hb, h⟩
  -- an induction on the trace: only an added block opens anything
  induction h with
  | nil => simp at hp
  | alone b hb _ ih => exact hlater b (ih (by simpa using hp))
  -- the opener is an earlier one, or the block that is added here
  | opens b hb _ ih =>
    rcases List.mem_append.1 hp with hp | hp
    · exact hlater b (ih hp)
    · simp only [List.mem_singleton, Prod.mk.injEq, Part.opens.injEq] at hp
      exact ⟨b, by simp, hb, hp⟩
  | divides b c e hb _ ih => exact hlater b (ih (by simpa using hp))
  | closes b c e hb _ ih => exact hlater b (ih (by simpa using hp))
  | implied c e _ ih => exact ih (by simpa using hp)

/-- In a `Trace`, as many C blocks are opened as blocks with that flag are added. -/
theorem Trace.opens_eq {bs : List Block} {ps : List (Part × Block)} {d : Nat}
    (h : Trace bs ps d) (hbs : ∀ b ∈ bs, b.Written) :
    ps.countP (·.1.isOpening) = bs.countP (·.attrs.flag = some .cStart) := by
  -- only the part of an opener opens a C block, and each opener has one
  induction h with
  | nil => rfl
  | alone b hb _ ih =>
    -- a written block with that flag would not stand alone
    obtain ⟨hbs, hw⟩ := List.forall_mem_append.1 hbs
    have hw : b.Written := by simpa using hw
    simpa [hw.not_opener hb] using ih hbs
  | opens b hb _ ih =>
    have ih := ih fun b hb => hbs b (List.mem_append_left _ hb)
    simp [hb, ih]
  | divides b c e hb _ ih =>
    have ih := ih fun b hb => hbs b (List.mem_append_left _ hb)
    simp [hb, ih]
  | closes b c e hb _ ih =>
    have ih := ih fun b hb => hbs b (List.mem_append_left _ hb)
    simp [hb, ih]
  | implied c e _ ih => simpa using ih hbs

/-- One more block with its part is one more of those that somebody wrote. -/
private theorem settled_snoc {bs : List Block} {ps : List (Part × Block)} {b b' : Block} (q : Part)
    (hw : b.Written) (hb : b.Settled b')
    (h : List.Forall₂ Block.Settled bs ((ps.map (·.2)).filter fun b => !b.isImplied)) :
    List.Forall₂ Block.Settled (bs ++ [b])
      (((ps ++ [(q, b')]).map (·.2)).filter fun b => !b.isImplied) := by
  have hkept : b'.isImplied = false := hb.not_isImplied hw
  have hsplit : ((ps ++ [(q, b')]).map (·.2)).filter (fun b => !b.isImplied) =
      ((ps.map (·.2)).filter fun b => !b.isImplied) ++ [b'] := by
    simp [List.filter_append, hkept]
  rw [hsplit]
  exact List.rel_append h (.cons hb .nil)

/-- Each `Written` block has its part, in order, and all others are implied ends. -/
theorem Trace.settled {bs : List Block} {ps : List (Part × Block)} {d : Nat}
    (h : Trace bs ps d) (hbs : ∀ b ∈ bs, b.Written) :
    List.Forall₂ Block.Settled bs ((ps.map (·.2)).filter fun b => !b.isImplied) := by
  induction h with
  | nil => exact .nil
  -- a block that has been written adds itself, as it settles in its place
  | alone b hb _ ih =>
    obtain ⟨hbs, hw⟩ := List.forall_mem_append.1 hbs
    have hw : b.Written := by simpa using hw
    exact settled_snoc _ hw (.refl b (hw.not_opener hb)) (ih hbs)
  | opens b hb _ ih =>
    obtain ⟨hbs, hw⟩ := List.forall_mem_append.1 hbs
    exact settled_snoc _ (by simpa using hw) (.asOpener b hb) (ih hbs)
  | divides b c e hb _ ih =>
    obtain ⟨hbs, hw⟩ := List.forall_mem_append.1 hbs
    exact settled_snoc _ (by simpa using hw) (.asEnder b c e (.inl hb)) (ih hbs)
  | closes b c e hb _ ih =>
    obtain ⟨hbs, hw⟩ := List.forall_mem_append.1 hbs
    exact settled_snoc _ (by simpa using hw) (.asEnder b c e (.inr hb)) (ih hbs)
  | implied c e _ ih =>
    -- the one part that is left out has no block to go with it
    have himplied : (impliedEnd.asEnder c e).isImplied = true :=
      (Block.isImplied_iff _).2 ⟨c, e, rfl⟩
    simpa [List.filter_append, himplied] using ih hbs

/-- In a `Trace`, an implied end does nothing but close a C block. -/
theorem Trace.implied_closes {bs : List Block} {ps : List (Part × Block)} {d : Nat}
    (h : Trace bs ps d) (hbs : ∀ b ∈ bs, b.Written) :
    ∀ p ∈ ps, p.2.isImplied = true → p.1 = .closes := by
  -- a part of a written block is not implied, so only the last case is about one
  induction h with
  | nil => simp
  | alone b hb _ ih =>
    obtain ⟨hbs, hw⟩ := List.forall_mem_append.1 hbs
    have hw : b.Written := by simpa using hw
    have hkept : b.isImplied = false :=
      (Block.Settled.refl b (hw.not_opener hb)).not_isImplied hw
    refine List.forall_mem_append.2 ⟨ih hbs, ?_⟩
    simp [hkept]
  | opens b hb _ ih =>
    obtain ⟨hbs, hw⟩ := List.forall_mem_append.1 hbs
    have hkept : b.asOpener.isImplied = false :=
      (Block.Settled.asOpener b hb).not_isImplied (by simpa using hw)
    refine List.forall_mem_append.2 ⟨ih hbs, ?_⟩
    simp [hkept]
  -- a written block that ends a branch is told from an implied end
  | divides b c e hb _ ih =>
    obtain ⟨hbs, hw⟩ := List.forall_mem_append.1 hbs
    have hkept : (b.asEnder c e).isImplied = false :=
      (Block.Settled.asEnder b c e (.inl hb)).not_isImplied (by simpa using hw)
    refine List.forall_mem_append.2 ⟨ih hbs, ?_⟩
    simp [hkept]
  | closes b c e hb _ ih =>
    obtain ⟨hbs, _⟩ := List.forall_mem_append.1 hbs
    exact List.forall_mem_append.2 ⟨ih hbs, by simp⟩
  | implied c e _ ih => exact List.forall_mem_append.2 ⟨ih hbs, by simp⟩

/-- When everything in a `Trace` is closed, the C blocks that were opened are those that a written block
    closes and those that an implied end closes. -/
theorem Trace.implied_add_written {bs : List Block} {ps : List (Part × Block)}
    (h : Trace bs ps 0) (hbs : ∀ b ∈ bs, b.Written) :
    ps.countP (·.2.isImplied) + ps.countP (fun p => p.1 = .closes && !p.2.isImplied) =
      bs.countP (·.attrs.flag = some .cStart) := by
  -- implied ends are among the closing parts, so these are counted in two shares
  have himplied : ps.countP (·.2.isImplied) =
      ps.countP fun p => p.1 = .closes && p.2.isImplied := by
    refine List.countP_congr fun p hp => ?_
    constructor
    · intro hi
      simp [hi, h.implied_closes hbs p hp hi]
    · intro hi
      exact (Bool.and_eq_true _ _ ▸ hi).2
  have hcloses : ps.countP (·.1 = .closes) =
      ps.countP (fun p => p.1 = .closes && p.2.isImplied) +
        ps.countP (fun p => p.1 = .closes && !p.2.isImplied) := by
    rw [List.countP_eq_countP_filter_add ps (·.1 = .closes) (·.2.isImplied), List.countP_filter,
      List.countP_filter]
  rw [himplied, ← hcloses, ← h.opens_eq hbs, ← h.closes_add_depth, Nat.add_zero]

end Layout

end BlockScript
