import BlockScript.Proofs.Block.Kind
import BlockScript.Proofs.Reading.Depth
import BlockScript.Proofs.Reading.Pieces
import BlockScript.Proofs.Reading.Recognised
import BlockScript.Proofs.Workspace.Succession
import BlockScript.Proofs.Workspace.WellBuilt

/-!
# Where scripts begin and end

A hat and the header of a defined block start a script, a cap ends one, and reporters, conditions, ringed
blocks and comments have a script to themselves. None of this is said by the nesting; it comes about one
block at a time. So it is stated for what is there at any moment: of the script that is being put
together it is known that it can still go on, and of a branch of an open C block that nothing in it starts
a script or stands alone.

## Key results

- `Layout.Route.orderly`, `Layout.Orderly.newScript`: each change of a layout keeps this
- `Layout.run_orderly`: so it holds after every run
- `Vocabulary.parse_bounded`: and of the scripts of a text
-/

namespace BlockScript

/-! ## Scripts -/

namespace Script

/-- Nodes as a branch of a C block can hold them: all blocks are ordinary, at any depth. -/
def Inner (s : Script) : Prop := ∀ b, .block b ∈ nodes s → b.Ordinary

/-- A script that can go on: nothing behind its first node starts a script, nothing in it ends one or
    stands alone, and what is in a mouth is ordinary. -/
structure Open (s : Script) : Prop where
  first : ∀ b, .block b ∈ (nodes s).tail → b.startsScript = false
  going : ∀ b, .block b ∈ s → b.Going ∧ b.standsAlone = false
  mouths : ∀ c inner, .mouth c inner ∈ nodes s → ∀ b, .block b ∈ inner → b.Ordinary

/-- A finished script: it is not empty, what starts a script is its first node, what ends one is its
    last, what stands alone is its only one, and no mouth holds what starts a script or stands alone.
    Arguments are parts of the blocks that they belong to, and no nodes. -/
structure Bounded (s : Script) : Prop where
  nonempty : s ≠ []
  first : ∀ b, .block b ∈ (nodes s).tail → b.startsScript = false
  last : ∀ b, .block b ∈ s.dropLast → b.endsScript = false
  alone : ∀ b, .block b ∈ s → b.standsAlone = true ∨ b.isComment = true → s = [.block b]
  mouths : ∀ c inner, .mouth c inner ∈ nodes s → ∀ b, .block b ∈ inner → b.Ordinary

/-- In an empty mouth there is nothing to ask. -/
private theorem inner_nil : Inner [] := by simp [Inner, nodes]

/-- An ordinary block may stand in a mouth. -/
private theorem inner_block {b : Block} (h : b.Ordinary) : Inner [.block b] := by
  simpa [Inner, nodes] using h

/-- So may nodes one after the other, by `Inner`. -/
theorem Inner.append {s t : Script} (hs : Inner s) (ht : Inner t) : Inner (s ++ t) := by
  intro b hb
  rw [nodes, List.flatMap_append, List.mem_append] at hb
  exact hb.elim (hs b) (ht b)

/-- A script in which nothing has been placed is bounded so far. -/
private theorem open_nil : Open [] := ⟨by simp [nodes], by simp, by simp [nodes]⟩

/-- A script that is `Open` can go on with nodes that are ordinary and that it can go on behind. -/
theorem Open.append {s t : Script} (hs : Open s) (ht : Inner t)
    (hgoing : ∀ b, .block b ∈ t → b.Going) : Open (s ++ t) := by
  have hnodes : nodes (s ++ t) = nodes s ++ nodes t := List.flatMap_append
  constructor
  · intro b hb
    rw [hnodes] at hb
    -- what is behind the first node of both is behind that of the one, or in the other
    cases hs' : nodes s with
    | nil =>
      rw [hs', List.nil_append] at hb
      exact (ht b (List.mem_of_mem_tail hb)).start
    | cons n ns =>
      rw [hs', List.cons_append, List.tail_cons, List.mem_append] at hb
      rcases hb with hb | hb
      · apply hs.first b
        rw [hs', List.tail_cons]
        exact hb
      · exact (ht b hb).start
  · intro b hb
    rcases List.mem_append.1 hb with hb | hb
    · exact hs.going b hb
    · have htop : .block b ∈ nodes t :=
        List.mem_flatMap.2 ⟨.block b, hb, Node.mem_nodes_self _⟩
      exact ⟨hgoing b hb, (ht b htop).alone⟩
  · intro c inner hm b hb
    rw [hnodes, List.mem_append] at hm
    rcases hm with hm | hm
    · exact hs.mouths c inner hm b hb
    · exact ht b (mem_nodes_of_mem_mouth hm hb)

/-- A script that is `Open` can also be finished as it is. -/
theorem Open.bounded {s : Script} (h : Open s) (hne : s ≠ []) : Bounded s where
  nonempty := hne
  first := h.first
  last b hb := (h.going b (List.dropLast_subset _ hb)).1.ends
  alone b hb hlone := by
    obtain ⟨hgoing, halone⟩ := h.going b hb
    simp [halone, hgoing.comment] at hlone
  mouths := h.mouths

/-- A block alone makes a finished script, whatever it is. -/
private theorem bounded_block (b : Block) : Bounded [.block b] where
  nonempty := by simp
  first := by simp [nodes]
  last := by simp
  alone b' hb' _ := by
    rw [List.mem_singleton] at hb'
    rw [hb']
  mouths c inner hm := by simp [nodes] at hm

/-- A script that can go on is finished by a block that ends it. -/
private theorem Open.bounded_concat {s : Script} (h : Open s) {b : Block} (hb : b.Ordinary)
    (hcomment : b.isComment = false) : Bounded (s ++ [.block b]) := by
  have hnodes : nodes (s ++ [.block b]) = nodes s ++ [.block b] := by simp [nodes]
  constructor
  · simp
  · -- only the block at the end is new, and it starts nothing
    intro b' hb'
    rw [hnodes] at hb'
    cases hs : nodes s with
    | nil => simp [hs] at hb'
    | cons n ns =>
      rw [hs, List.cons_append, List.tail_cons, List.mem_append] at hb'
      rcases hb' with hb' | hb'
      · apply h.first b'
        rw [hs, List.tail_cons]
        exact hb'
      · obtain rfl : b' = b := by simpa using hb'
        exact hb.start
  · -- those in front of it can go on
    intro b' hb'
    rw [List.dropLast_concat] at hb'
    exact (h.going b' hb').1.ends
  · -- neither the new block nor one in front of it stands alone
    intro b' hb' hlone
    rcases List.mem_append.1 hb' with hb' | hb'
    · obtain ⟨hgoing, halone⟩ := h.going b' hb'
      simp [halone, hgoing.comment] at hlone
    · obtain rfl : b' = b := by simpa using hb'
      simp [hb.alone, hcomment] at hlone
  · -- the new block has no mouth
    intro c inner hm b' hb'
    rw [hnodes, List.mem_append] at hm
    rcases hm with hm | hm
    · exact h.mouths c inner hm b' hb'
    · simp at hm

end Script

/-! ## Open C blocks -/

/-- A frame with nothing in it that starts a script or stands alone. What stands before it is another
    container's affair. -/
structure Frame.Inner (f : Frame) : Prop where
  opener : f.opener.Ordinary
  branches : ∀ b ∈ f.branches, Script.Inner b.inner ∧ b.ender.Ordinary

/-- A C block that is `closedBy` an ordinary block holds ordinary blocks alone. -/
theorem Frame.Inner.closedBy {f : Frame} (hf : f.Inner) {inner : List Node}
    (hinner : Script.Inner inner) {closer : Block} (hcloser : closer.Ordinary) :
    Script.Inner [f.closedBy inner closer] := by
  -- the last branch is like those before it, and has what closes the C block behind it
  have hbranches : ∀ b ∈ f.branches ++ [⟨f.mouth, inner, closer⟩],
      Script.Inner b.inner ∧ b.ender.Ordinary := by
    intro b hb
    rcases List.mem_append.1 hb with hb | hb
    · exact hf.branches b hb
    · obtain rfl := List.mem_singleton.1 hb
      exact ⟨hinner, hcloser⟩
  intro b hb
  simp only [Script.nodes, List.flatMap_cons, List.flatMap_nil, List.append_nil, Frame.closedBy,
    Node.cBlock, Node.nodes_wrap, Node.nodes_block, List.mem_cons, List.mem_append,
    List.not_mem_nil, or_false] at hb
  rcases hb with hb | hb | hb
  · cases hb
  · cases hb
    exact hf.opener
  · -- something in one of the branches
    rw [List.flatMap_assoc, List.mem_flatMap] at hb
    obtain ⟨branch, hbranch, hb⟩ := hb
    obtain ⟨hbranchInner, hender⟩ := hbranches branch hbranch
    simp only [Branch.flatMap_nodes, List.mem_cons, List.mem_append, List.not_mem_nil,
      or_false] at hb
    rcases hb with hb | hb | hb
    · cases hb
    · exact hbranchInner b hb
    · cases hb
      exact hender

namespace Nesting

/-- Open C blocks and what is in the innermost container, with everything in its place: the script at the
    bottom can go on, and what is inside a C block is ordinary. -/
def Orderly (inner : List Node) : List Frame → Prop
  | [] => Script.Open inner
  | f :: outer => Script.Inner inner ∧ f.Inner ∧ Orderly f.before outer

/-- A nesting stays `Orderly` when ordinary nodes are placed in any container. Only the script at the bottom
    asks for more. -/
theorem Orderly.append {inner t : List Node} {frames : List Frame} (h : Orderly inner frames)
    (ht : Script.Inner t) (hgoing : frames = [] → ∀ b, .block b ∈ t → b.Going) :
    Orderly (inner ++ t) frames := by
  cases frames with
  | nil => exact Script.Open.append h ht (hgoing rfl)
  | cons f outer => exact ⟨h.1.append ht, h.2⟩

/-- A nesting stays `Orderly` when a C block is closed, which makes one node of it that can go where it
    stands. -/
theorem Orderly.close {f : Frame} {outer : List Frame} {inner : List Node}
    (h : Orderly inner (f :: outer)) {closer : Block} (hcloser : closer.Ordinary) :
    Orderly (f.before ++ [f.closedBy inner closer]) outer := by
  obtain ⟨hinner, hf, houter⟩ := h
  apply houter.append (hf.closedBy hinner hcloser)
  intro _ b hb
  simp [Frame.closedBy, Node.cBlock] at hb

/-- A nesting stays `Orderly` when a block is placed that is ordinary, and at the bottom the script has to go
    on behind it. -/
theorem Orderly.place {n : Nesting} (h : Orderly n.inner n.frames) {b : Block} (hb : b.Ordinary)
    (hgoing : n.frames = [] → b.Going) : Orderly (n.place (.block b)).inner n.frames := by
  apply h.append (Script.inner_block hb)
  intro hflat b' hb'
  obtain rfl : b' = b := by simpa using hb'
  exact hgoing hflat

/-- The script that a nesting comes to that is `Orderly` can go on. -/
theorem Orderly.closed {n : Nesting} (h : Orderly n.inner n.frames) : Script.Open n.closed := by
  apply closed_induction (motive := fun n => Orderly n.inner n.frames) n h
  intro f outer inner ih
  exact ih.close (Block.ordinary_of_flag rfl (by decide))

end Nesting

/-! ## Layouts -/

namespace Layout

/-- A layout with everything in its place: in the finished scripts, and in what is being put together. -/
structure Orderly (l : Layout) : Prop where
  scripts : ∀ s ∈ l.scripts, Script.Bounded s
  nesting : Nesting.Orderly l.nesting.inner l.nesting.frames

/-- A layout stays `Orderly` when its script, which can go on, is finished. -/
theorem Orderly.newScript {l : Layout} (h : l.Orderly) : l.newScript.Orderly := by
  unfold Layout.newScript
  split
  · exact h
  · rename_i hne
    constructor
    · intro s hs
      rcases List.mem_append.1 hs with hs | hs
      · exact h.scripts s hs
      · obtain rfl := List.mem_singleton.1 hs
        -- what was open is closed, and then complete
        apply h.nesting.closed.bounded
        exact Nesting.closed_ne_nil (by simpa using hne)
    · exact Script.open_nil

/-- What a block leaves behind that ends the script it is placed in. -/
private theorem newScript_place {l : Layout} (b : Block) (hflat : l.nesting.frames = []) :
    (l.place b).newScript = { scripts := l.scripts ++ [l.nesting.inner ++ [.block b]] } := by
  simp [Layout.newScript, Layout.place, nest, Nesting.place, Nesting.isEmpty, Nesting.closed,
    Nesting.closedFrom, hflat]

/-- A layout with one more script that is `Bounded` and nothing begun is `Orderly`. -/
theorem Orderly.finish {l : Layout} (h : l.Orderly) {s : Script} (hs : s.Bounded) :
    Orderly { scripts := l.scripts ++ [s] } := by
  refine ⟨?_, Script.open_nil⟩
  intro s' hs'
  rcases List.mem_append.1 hs' with hs' | hs'
  · exact h.scripts s' hs'
  · obtain rfl := List.mem_singleton.1 hs'
    exact hs

/-- Whatever `Route` a block takes, the layout stays `Orderly`. A comment has to be nothing else. -/
theorem Route.orderly {b : Block} {l l' : Layout} (route : Route b l l') (h : l.Orderly)
    (hplain : b.isComment = true → b.attrs.shape = none) : l'.Orderly := by
  cases route with
  | own _ =>
    have hnesting : l.newScript.nesting = {} := l.newScript_nesting
    rw [newScript_place b (by rw [hnesting]), hnesting]
    exact h.newScript.finish (Script.bounded_block b)
  | first _ hring hat =>
    refine ⟨h.newScript.scripts, ?_⟩
    -- nothing is behind the block, and it is none of those that a script cannot go on behind
    have hgoing : b.Going ∧ b.standsAlone = false := by
      refine ⟨⟨?_, ?_⟩, ?_⟩
      · rcases hat with hat | hat <;> simp [Block.endsScript, hat]
      · rw [Bool.eq_false_iff]
        intro hcomment
        simp [hplain hcomment] at hat
      · rcases hat with hat | hat <;> simp [Block.standsAlone, hat, hring]
    have hplaced : (l.newScript.place b).nesting = ⟨[], [.block b]⟩ := by
      simp [Layout.place, nest, Nesting.place, newScript_nesting]
    rw [hplaced]
    refine ⟨by simp [Script.nodes], ?_, by simp [Script.nodes]⟩
    simpa using hgoing
  | next _ hordinary hgoing => exact ⟨h.scripts, h.nesting.place hordinary hgoing⟩
  | last _ hflat hordinary hcomment =>
    rw [newScript_place b hflat]
    have hopen : Script.Open l.nesting.inner := by simpa [hflat, Nesting.Orderly] using h.nesting
    exact h.finish (hopen.bounded_concat hordinary hcomment)
  -- inside a C block nothing has to be checked again: the frames are in order as they are
  | opens hb =>
    refine ⟨h.scripts, Script.inner_nil, ⟨?_, by simp⟩, h.nesting⟩
    exact Block.ordinary_of_flag hb (by decide)
  | divides f outer hb inside =>
    obtain ⟨scripts, ⟨frames, inner⟩⟩ := l
    obtain rfl : frames = f :: outer := inside
    obtain ⟨hinner, hf, houter⟩ := h.nesting
    refine ⟨h.scripts, Script.inner_nil, ⟨hf.opener, ?_⟩, houter⟩
    -- the branch that is finished joins those before it
    intro branch hbranch
    rcases List.mem_append.1 hbranch with hbranch | hbranch
    · exact hf.branches branch hbranch
    · obtain rfl := List.mem_singleton.1 hbranch
      exact ⟨hinner, Block.ordinary_of_flag hb (by decide)⟩
  | closes f outer hb inside =>
    obtain ⟨scripts, ⟨frames, inner⟩⟩ := l
    obtain rfl : frames = f :: outer := inside
    exact ⟨h.scripts, h.nesting.close (Block.ordinary_of_flag hb (by decide))⟩

/-- After every `run` the layout is `Orderly`, if what is added as a comment is nothing else. -/
theorem run_orderly (moves : List Move)
    (h : ∀ b ∈ added moves, b.isComment = true → b.attrs.shape = none) : (run moves).Orderly := by
  refine run_induction (motive := fun bs l =>
    (∀ b ∈ bs, b.isComment = true → b.attrs.shape = none) → l.Orderly) ?_ ?_ ?_ moves h
  · intro _
    exact ⟨by simp, Script.open_nil⟩
  · intro bs l b ih hbs
    rw [List.forall_mem_append, List.forall_mem_singleton] at hbs
    exact (add_route b l).orderly (ih hbs.1) hbs.2
  · intro bs l ih hbs
    exact (ih hbs).newScript

end Layout

/-! ## Texts -/

namespace Script

/-- A script stays `Bounded` under a change of attributes that keeps what decides about places. -/
theorem Bounded.mapAttrs {s : Script} (h : s.Bounded) {f : Attrs → Attrs}
    (hflag : ∀ a, (f a).flag = a.flag) (hshape : ∀ a, (f a).shape = a.shape)
    (hid : ∀ a, (f a).id = a.id) : (s.mapAttrs f).Bounded := by
  have hstart : ∀ b : Block, (b.mapAttrs f).startsScript = b.startsScript := by
    intro b
    simp [Block.startsScript, Block.mapAttrs, hflag, hshape]
  have hend : ∀ b : Block, (b.mapAttrs f).endsScript = b.endsScript := by
    intro b
    simp [Block.endsScript, Block.mapAttrs, hflag, hshape]
  have hlone : ∀ b : Block, (b.mapAttrs f).standsAlone = b.standsAlone := by
    intro b
    simp [Block.standsAlone, Block.mapAttrs, hflag, hshape]
  have hcomment : ∀ b : Block, (b.mapAttrs f).isComment = b.isComment := by
    intro b
    simp [Block.isComment, Block.mapAttrs, hid]
  constructor
  · -- there is a block in it
    simpa [Script.mapAttrs] using h.nonempty
  · -- none but the first starts a script
    intro b hb
    rw [nodes_mapAttrs, ← List.map_tail] at hb
    obtain ⟨b₀, hb₀, rfl⟩ := Node.block_mem_map_mapAttrs hb
    rw [hstart]
    exact h.first b₀ hb₀
  · -- and none but the last ends one
    intro b hb
    rw [Script.mapAttrs, ← List.map_dropLast] at hb
    obtain ⟨b₀, hb₀, rfl⟩ := Node.block_mem_map_mapAttrs hb
    rw [hend]
    exact h.last b₀ hb₀
  · -- what stands alone has no neighbours
    intro b hb hb'
    obtain ⟨b₀, hb₀, rfl⟩ := Node.block_mem_map_mapAttrs hb
    rw [hlone, hcomment] at hb'
    rw [h.alone b₀ hb₀ hb']
    simp [Script.mapAttrs]
  · -- the blocks in mouths are ordinary
    intro c inner hm b hb
    rw [nodes_mapAttrs] at hm
    obtain ⟨inner₀, hm₀, rfl⟩ := Node.mouth_mem_map_mapAttrs hm
    obtain ⟨b₀, hb₀, rfl⟩ := Node.block_mem_map_mapAttrs hb
    have hordinary := h.mouths c inner₀ hm₀ b₀ hb₀
    exact ⟨by rw [hstart, hordinary.start], by rw [hlone, hordinary.alone]⟩

end Script

namespace Vocabulary

/-- The scripts that `parse` gives are `Bounded`: as nodes, hats come first, caps come last, and what stands
    alone is alone. -/
theorem parse_bounded {v : Vocabulary} {text : Text} {w : Workspace} (h : v.parse text = .ok w) :
    ∀ s ∈ w.scripts, s.Bounded := by
  obtain ⟨w₀, hlayOut, rfl⟩ := parse_ok h
  obtain ⟨-, -, -, moves, hlayout, hblocks⟩ := layOut_ok hlayOut
  -- only a line of slashes gives a comment, and that has no shape
  have hcomments : ∀ b ∈ Layout.added moves, b.isComment = true → b.attrs.shape = none := by
    refine Lists.forall_right_of_forall₂ hblocks (P := fun b =>
      b.isComment = true → b.attrs.shape = none) ?_
    intro line b hline hcomment
    obtain ⟨comment, rfl⟩ := lineBlock_isComment hline hcomment
    rfl
  have horderly := Layout.run_orderly moves hcomments
  rw [← hlayout] at horderly
  intro s hs
  rw [Workspace.scripts_resolve, List.mem_map] at hs
  obtain ⟨s₀, hs₀, rfl⟩ := hs
  -- resolution changes categories, which are not looked at
  apply (horderly.scripts s₀ hs₀).mapAttrs
  all_goals
    intro a
    rw [Session.resolved_eq]

/-- A comment, a hat with an open C block that a reporter closes, and a cap: four scripts. -/
theorem parse_bounded_of_four :
    ∃ w, defining.parse "// note\nfoo :: hat\nbar :: cstart\n(baz)\nqux :: cap".toList = .ok w ∧
      w.scripts.length = 4 ∧ ∀ s ∈ w.scripts, s.Bounded := by
  have hlength : (defining.parse "// note\nfoo :: hat\nbar :: cstart\n(baz)\nqux :: cap".toList).map
      (fun w => w.scripts.length) = .ok 4 := by decide +kernel
  cases hw : defining.parse "// note\nfoo :: hat\nbar :: cstart\n(baz)\nqux :: cap".toList with
  | error f =>
    rw [hw] at hlength
    cases hlength
  | ok w =>
    rw [hw] at hlength
    exact ⟨w, rfl, Except.ok.inj hlength, parse_bounded hw⟩

open Fragment in
/-- An argument with the override `hat` is read as a hat, which stands inside another block. -/
private theorem english_read_hat {hat : Block}
    (h : ((english true).readFragment false "(bar :: hat)".toList).result = .ok hat) :
    hat.startsScript = true := by
  have hblock : IsBlock (english true) false "(bar :: hat)".toList :=
    ⟨english_header?_eq_none (c := 'b') List.mem_cons_self (by decide) (by decide), by decide⟩
  have hsplit : Override.split (specOf (piecesIn (english true) false "(bar :: hat)".toList)) =
      ("bar".toList, ["hat".toList]) := by decide
  have hunknown : Dictionary.get? ((english true).key "bar".toList) (english true).index = none :=
    index_eq_none_of_letters (by decide)
  have hform := hblock.form_eq
  simp only [hsplit, identify_of_index_eq_none hunknown] at hform
  -- the block has the attributes of its form, where the last word that names a shape decides
  have hattrs := attrs?_of_readFragment h
  rw [hform, Form.attrs?, Option.some_inj] at hattrs
  have hshape : hat.attrs.shape = some .hat := by
    rw [← hattrs, Override.applyAll_ofWord_shape]
    decide
  have hflag : hat.attrs.flag = none := by
    rw [← hattrs, Override.applyAll_ofWord_flag]
    rfl
  simp [Block.startsScript, hshape, hflag]

/-- A block inside a block is no node, so its shape says nothing about scripts: in `say (bar :: hat)` a hat is
    an argument, and no script starts with it. -/
theorem hat_in_argument :
    ∃ w b hat, (english true).parse "say (bar :: hat)".toList = .ok w ∧
      .block b ∈ w.scripts.flatMap Script.nodes ∧ hat ∈ b.arguments ∧ hat.startsScript = true ∧
      ∀ s ∈ w.scripts, s.head? ≠ some (.block hat) := by
  have hgroup : (Category.looks, looksEntries) ∈ palette := by simp [palette]
  have he : Entry.plain "say _" ∈ looksEntries := by simp [looksEntries]
  have hline : Text.weave (Text.runsOf (Entry.plain "say _").spec) ["(bar :: hat)".toList] =
      "say (bar :: hat)".toList := by decide
  obtain ⟨b, hread, hdescribes, harguments⟩ := @readLine_spec true _ _ hgroup he (by decide)
    ["(bar :: hat)".toList] (by decide) (by decide) (readLine_ne_tooDeep (by decide))
  rw [hline] at hread
  obtain ⟨hat, later, hhat, hlater, harguments⟩ := List.forall₂_cons_left_iff.1 harguments
  -- there is one argument, so the block has one
  obtain rfl := List.forall₂_nil_left_iff.1 hlater
  -- the block stands in a script, and the hat in the block
  have hlines : List.Forall₂ (fun line b => Text.trim line ≠ [] ∧ (english true).lineBlock line = .ok b)
      (Workspace.sourceLines "say (bar :: hat)".toList) [b] :=
    .cons ⟨by decide, lineBlock_of_readLine hread⟩ .nil
  obtain ⟨w, session, hparse, hscripts⟩ := parse_of_blocks hlines
  have hflag : b.attrs.flag = none := hdescribes.flag
  have hshape : b.attrs.shape = some .stack := hdescribes.shape (by decide)
  have hcomment : b.isComment = false := by
    rw [Block.isComment, hdescribes.id]
    decide
  have hplaced : [b].foldl (fun l b => l.add b) ({} : Layout) = Layout.place b {} := by
    rw [List.foldl_cons, List.foldl_nil, Layout.add, hcomment, hflag]
    simp [Layout.addByShape, hshape]
  rw [hplaced] at hscripts
  have hscripts : w.scripts = [[.block (b.mapAttrs session.resolved)]] := hscripts
  have hstarts : ∀ b : Block, (b.mapAttrs session.resolved).startsScript = b.startsScript := by
    intro b
    simp only [Block.startsScript, Block.mapAttrs, Session.resolved_eq]
  refine ⟨w, b.mapAttrs session.resolved, hat.mapAttrs session.resolved, hparse, ?_, ?_, ?_, ?_⟩
  · simp [hscripts, Script.nodes]
  · rw [Block.arguments, Block.mapAttrs, Piece.blocks_mapAttrsList, ← Block.arguments, harguments]
    simp
  · rw [hstarts]
    exact english_read_hat hhat
  · -- the script starts with the block around the hat, which has another shape
    intro s hs hfirst
    rw [hscripts, List.mem_singleton] at hs
    rw [hs, List.head?_cons, Option.some_inj, Node.block.injEq] at hfirst
    have hsame := congrArg Block.startsScript hfirst
    rw [hstarts, hstarts, english_read_hat hhat, Block.startsScript, hshape] at hsame
    simp at hsame

end Vocabulary

end BlockScript
