import BlockScript.Proofs.Lists
import BlockScript.Proofs.Reading.Unmarked
import BlockScript.Proofs.Workspace.Resolution
import BlockScript.Proofs.Workspace.Stack
import BlockScript.Script.Json

/-!
# Marks are exact

A block is marked when it ends a branch, and not later: by then all that the branch will ever hold is in its
mouth, and C blocks in the mouth have their shape since they were opened. So in the scripts of a text the
block that ends a branch is marked just if the last node in the mouth before it is a cap block or a C block
with the shape of one. Nothing else is marked, as nothing that is read is. The mark is written as a suffix
of the flag.

## Key results

- `Script.Suits.exactlyMarked`: marks are exact where blocks are as exact marks ask by their places
- `Attrs.noted_iff`: the suffix is written just if there is a mark
- `Vocabulary.parse_marks`: in the scripts of a text marks are exact
-/

namespace BlockScript

/-! ## The mark as it is written -/

namespace Attrs

/-- An optional field is under its own name. -/
private theorem not_mem_optionalField {name key : String} (hne : name ≠ key) (value : Option Text)
    (j : Json) :
    (key.toList, j) ∉ optionalField name value := by
  cases value with
  | none => simp [optionalField]
  | some t =>
    simp only [optionalField, List.mem_singleton, Prod.mk.injEq, not_and]
    intro hkey
    exact absurd (String.ext hkey.symm) hne

/-- The `flag` is written under its own name and nowhere else. -/
theorem flag_mem_fields_iff (a : Attrs) (j : Json) :
    ("flag".toList, j) ∈ a.fields ↔ ∃ t, a.flagNote = some t ∧ j = .str t := by
  have hringed : ("flag".toList, j) ∉ if a.ringed then [("is_ringed".toList, Json.bool true)] else [] := by
    split <;> simp
  simp only [fields, List.mem_append, not_mem_optionalField (show "blockid" ≠ "flag" by decide),
    not_mem_optionalField (show "category" ≠ "flag" by decide),
    not_mem_optionalField (show "shape" ≠ "flag" by decide),
    not_mem_optionalField (show "lang" ≠ "flag" by decide),
    not_mem_optionalField (show "comment" ≠ "flag" by decide),
    not_mem_optionalField (show "image_replacement" ≠ "flag" by decide), hringed, false_or, or_false]
  cases a.flagNote with
  | none => simp [optionalField]
  | some t => simp [optionalField]

/-- No flag that has a meaning ends like a mark. -/
private theorem name_ne_append_capend {flag : Flag} (h : flag ∈ Flag.standard) (t : Text) :
    flag.name ≠ t ++ " capend".toList := by
  -- the last letter of a mark is the d of end, which only one flag ends in, and that one is shorter
  have hsuffix : ∀ flag ∈ Flag.standard, ¬ " capend".toList <:+ flag.name := by decide
  exact fun heq => hsuffix flag h ⟨t, heq.symm⟩

/-- Where flags have a meaning and what is marked has one, the flag is among the `fields` with the suffix just
    if there is a mark. -/
theorem noted_iff {a : Attrs} (hflag : ∀ flag, a.flag = some flag → flag ∈ Flag.standard)
    (hmark : a.capEnd = true → a.flag ≠ none) :
    (∃ t, ("flag".toList, .str (t ++ " capend".toList)) ∈ a.fields) ↔ a.capEnd = true := by
  simp only [flag_mem_fields_iff, Json.str.injEq, exists_eq_right', flagNote, Option.map_eq_some_iff]
  constructor
  · rintro ⟨t, flag, hsome, hnote⟩
    by_contra hunmarked
    rw [if_neg hunmarked] at hnote
    exact name_ne_append_capend (hflag flag hsome) t hnote
  · intro hmarked
    obtain ⟨flag, hsome⟩ := Option.ne_none_iff_exists'.1 (hmark hmarked)
    exact ⟨flag.name, flag, hsome, if_pos hmarked⟩

end Attrs

/-! ## Exact marks -/

/-- A script in which marks are exact. -/
structure Script.ExactlyMarked (s : Script) : Prop where
  /-- In a C block a block is marked just if it divides or closes the C block, and the mouth directly in
      front of it ends in a cap block or in a C block with the shape of one. -/
  inside : ∀ shape front b back, .wrap shape (front ++ .block b :: back) ∈ nodes s →
    (b.attrs.capEnd = true ↔
      (b.attrs.flag = some .cElse ∨ b.attrs.flag = some .cEnd) ∧
        ∃ c inner n, front.getLast? = some (.mouth c inner) ∧ inner.getLast? = some n ∧
          n.shape = some .cap)
  /-- No block is marked that stands in a mouth, -/
  mouth : ∀ c inner b, .mouth c inner ∈ nodes s → .block b ∈ inner → b.attrs.capEnd = false
  /-- that stands outside of C blocks, -/
  outside : ∀ b, .block b ∈ s → b.attrs.capEnd = false
  /-- or that is nested in another block. -/
  nested : ∀ b ∈ blocks s, ∀ a ∈ b.pieces.flatMap Piece.allAttrs, a.capEnd = false
  /-- The flag is written with the suffix just if the block is marked. -/
  written : ∀ a ∈ allAttrs s,
    (∃ t, ("flag".toList, .str (t ++ " capend".toList)) ∈ a.fields) ↔ a.capEnd = true

/-- What exact marks ask of blocks by their places. -/
def Places.marked : Places where
  item b := b.IsUnmarked
  opener _ b := b.IsUnmarked
  ender _ _ inner b := (b.attrs.flag = some .cElse ∨ b.attrs.flag = some .cEnd) ∧
    b.attrs.capEnd = Script.endsInCap inner ∧ ∀ a ∈ b.pieces.flatMap Piece.allAttrs, a.IsUnmarked

/-- Blocks that are `IsUnmarked` meet it when they are placed. -/
theorem Places.marked_keptFor : marked.KeptFor Block.IsUnmarked := by
  refine ⟨fun b hb _ => hb, fun b hb hflag => ?_,
    fun flag b shape opener inner hb hender hflag _ => ?_⟩
  · obtain ⟨hown, hnested⟩ := (Block.isUnmarked_iff b).1 hb
    exact (Block.isUnmarked_iff _).2 ⟨⟨hown.capEnd, hown.flag⟩, hnested⟩
  · -- written or implied, what ends a branch comes without a mark
    have hunmarked : b.IsUnmarked := by
      rcases hb with hb | rfl
      · exact hb
      · exact Block.isUnmarked_of_blocks ⟨rfl, by simp [impliedEnd, Flag.standard]⟩
          (by simp [impliedEnd, Piece.blocks])
    obtain ⟨hown, hnested⟩ := (Block.isUnmarked_iff b).1 hunmarked
    refine ⟨?_, by simp [Block.asEnder, hown.capEnd], hnested⟩
    have hflag : (b.asEnder opener.attrs.category (b.attrs.capEnd || Script.endsInCap inner)).attrs.flag =
        some flag := hflag
    rw [hflag]
    exact hender.imp (congrArg some) (congrArg some)

/-- A block in the `nodes` of branches ends one of them, and stands directly behind its mouth. -/
private theorem Branch.exists_of_flatMap_nodes {branches : List Branch} {front back : List Node} {b : Block}
    (h : branches.flatMap nodes = front ++ .block b :: back) :
    ∃ branch ∈ branches, b = branch.ender ∧
      front.getLast? = some (.mouth branch.category branch.inner) := by
  -- the nodes in front grow as branches are passed, so they are generalised
  induction branches generalizing front with
  | nil => simp at h
  | cons branch branches ih =>
    rw [List.flatMap_cons, nodes] at h
    -- a branch has two nodes: the block ends the first branch, or it is in a later one
    rcases front with - | ⟨n, - | ⟨m, front⟩⟩
    · simp at h
    · simp only [List.cons_append, List.nil_append, List.cons.injEq, Node.block.injEq] at h
      obtain ⟨rfl, rfl, -⟩ := h
      exact ⟨branch, List.mem_cons_self, rfl, rfl⟩
    · simp only [List.cons_append, List.nil_append, List.cons.injEq] at h
      obtain ⟨branch', hmem, hb, hlast⟩ := ih h.2.2
      refine ⟨branch', List.mem_cons_of_mem _ hmem, hb, ?_⟩
      have hfront : front ≠ [] := by
        rintro rfl
        cases hlast
      rw [List.getLast?_cons_cons, List.getLast?_cons, hlast, Option.getD_some]

namespace Script

/-- What stands directly in a C block opens it, or it ends a branch. -/
private theorem inside_of_suits {shape : Option Shape} {front back : List Node} {b : Block}
    (h : (Node.wrap shape (front ++ .block b :: back)).Suits .marked) :
    (front = [] ∧ b.IsUnmarked) ∨
      ∃ branch : Branch, front.getLast? = some (.mouth branch.category branch.inner) ∧
        (b.attrs.flag = some .cElse ∨ b.attrs.flag = some .cEnd) ∧
        b.attrs.capEnd = endsInCap branch.inner := by
  obtain ⟨opener, branches, last, hwrap, hopener, hbranches, hlast⟩ := h
  obtain ⟨-, hcontents⟩ := Node.wrap.inj hwrap
  -- the contents are the opener and then the nodes of branches
  match front with
  | [] =>
    simp only [List.nil_append, List.cons.injEq, Node.block.injEq] at hcontents
    obtain ⟨rfl, -⟩ := hcontents
    exact .inl ⟨rfl, hopener⟩
  | n :: front =>
    simp only [List.cons_append, List.cons.injEq] at hcontents
    obtain ⟨branch, hmem, rfl, hmouth⟩ := Branch.exists_of_flatMap_nodes hcontents.2.symm
    refine .inr ⟨branch, by rw [List.getLast?_cons, hmouth, Option.getD_some], ?_⟩
    rcases List.mem_append.1 hmem with hmem | hmem
    · exact ⟨(hbranches branch hmem).ender.1, (hbranches branch hmem).ender.2.1⟩
    · obtain rfl := List.mem_singleton.1 hmem
      exact ⟨hlast.ender.1, hlast.ender.2.1⟩

/-- Flags have a meaning, what is marked has a flag, and nothing that is nested is marked. -/
private theorem attrs_of_suits {s : Script} (h : Suits .marked s) {b : Block} (hb : b ∈ blocks s) :
    (∀ flag, b.attrs.flag = some flag → flag ∈ Flag.standard) ∧
      (b.attrs.capEnd = true → b.attrs.flag ≠ none) ∧
      ∀ a ∈ b.pieces.flatMap Piece.allAttrs, a.IsUnmarked := by
  have hunmarked : b.IsUnmarked → (∀ flag, b.attrs.flag = some flag → flag ∈ Flag.standard) ∧
      (b.attrs.capEnd = true → b.attrs.flag ≠ none) ∧
      ∀ a ∈ b.pieces.flatMap Piece.allAttrs, a.IsUnmarked := by
    intro hb
    obtain ⟨hown, hnested⟩ := (Block.isUnmarked_iff b).1 hb
    exact ⟨hown.flag, fun hmarked => by simp [hown.capEnd] at hmarked, hnested⟩
  -- by the place of the block: an item, an opener, or the end of a branch
  obtain hitem | ⟨shape, hopener⟩ | ⟨_, _, inner, hflag, -, hnested⟩ := h.blocks hb
  · exact hunmarked hitem
  · exact hunmarked hopener
  · refine ⟨?_, fun _ => ?_, hnested⟩
    · rcases hflag with hflag | hflag <;> simp [hflag, Flag.standard]
    · rcases hflag with hflag | hflag <;> simp [hflag]

/-- A script that `Suits` the places for exact marks is `ExactlyMarked`. -/
theorem Suits.exactlyMarked {s : Script} (h : Suits .marked s) : s.ExactlyMarked := by
  have hunmarked : ∀ b : Block, b.IsUnmarked → b.attrs.capEnd = false :=
    fun b hb => ((Block.isUnmarked_iff b).1 hb).1.capEnd
  -- by place: in a C block, in a mouth, outside, nested, and then how the mark is written
  constructor
  · intro shape front b back hwrap
    obtain ⟨rfl, hopener⟩ | ⟨branch, hmouth, hflag, hcapEnd⟩ := inside_of_suits (h.inside _ hwrap)
    · -- in front of what opens a C block there is no mouth
      simp [hunmarked b hopener]
    · -- the mark says that the mouth ends in a cap, and this mouth is what comes before
      rw [hcapEnd, endsInCap_iff, hmouth]
      constructor
      · rintro ⟨n, hlast, hshape⟩
        exact ⟨hflag, _, _, n, rfl, hlast, hshape⟩
      · rintro ⟨-, c, inner, n, hinner, hlast, hshape⟩
        cases hinner
        exact ⟨n, hlast, hshape⟩
  · intro c inner b hmouth hb
    have hitems : ∀ n ∈ inner, n.IsItem .marked := h.inside _ hmouth
    exact hunmarked b ((hitems _ hb).block b rfl)
  · intro b hb
    exact hunmarked b ((h.items _ hb).block b rfl)
  · intro b hb a ha
    exact ((attrs_of_suits h hb).2.2 a ha).capEnd
  · intro a ha
    obtain ⟨b, hb, ha⟩ := List.mem_flatMap.1 ha
    obtain ⟨hflags, hmark, hnested⟩ := attrs_of_suits h hb
    rw [Block.allAttrs, List.mem_cons] at ha
    rcases ha with rfl | ha
    · exact Attrs.noted_iff hflags hmark
    · refine Attrs.noted_iff (hnested a ha).flag fun hmarked => ?_
      simp [(hnested a ha).capEnd] at hmarked

/-- Whether what is in front of a block ends in a mouth with a cap block is the same whatever the categories. -/
private theorem endsInMouthWithCap_map {f : Attrs → Attrs}
    (hshape : ∀ n : Node, (n.mapAttrs f).shape = n.shape)
    (front : List Node) :
    (∃ c inner n, (front.map (Node.mapAttrs f)).getLast? = some (.mouth c inner) ∧
        inner.getLast? = some n ∧ n.shape = some .cap) ↔
      ∃ c inner n, front.getLast? = some (.mouth c inner) ∧ inner.getLast? = some n ∧
        n.shape = some .cap := by
  constructor
  · rintro ⟨c, inner, n, hmouth, hlast, hcap⟩
    rw [List.getLast?_map, Option.map_eq_some_iff] at hmouth
    obtain ⟨m, hm, hmouth⟩ := hmouth
    -- a mouth comes from a mouth
    obtain ⟨inner₀, rfl, rfl⟩ := Node.mapAttrs_eq_mouth hmouth
    rw [List.getLast?_map, Option.map_eq_some_iff] at hlast
    obtain ⟨n₀, hn₀, rfl⟩ := hlast
    exact ⟨c, inner₀, n₀, hm, hn₀, (hshape n₀).symm.trans hcap⟩
  · rintro ⟨c, inner, n, hmouth, hlast, hcap⟩
    refine ⟨c, inner.map (Node.mapAttrs f), n.mapAttrs f, ?_, ?_, (hshape n).trans hcap⟩
    · rw [List.getLast?_map, hmouth, Option.map_some, Node.mapAttrs_mouth]
    · rw [List.getLast?_map, hlast, Option.map_some]

/-- A script stays `ExactlyMarked` when categories are changed. -/
theorem ExactlyMarked.mapAttrs {s : Script} (h : s.ExactlyMarked) {f : Attrs → Attrs}
    (hf : ∀ a, f a = { a with category := (f a).category }) : (Script.mapAttrs f s).ExactlyMarked := by
  have hcapEnd : ∀ a, (f a).capEnd = a.capEnd := fun a => by rw [hf]
  have hflag : ∀ a, (f a).flag = a.flag := fun a => by rw [hf]
  have hshape : ∀ n : Node, (n.mapAttrs f).shape = n.shape :=
    Node.shape_mapAttrs fun a => by rw [hf]
  -- in each case the block is taken back to the one it has been made of
  constructor
  · intro shape front b back hwrap
    rw [nodes_mapAttrs] at hwrap
    obtain ⟨contents, hn, hcontents⟩ := Node.wrap_mem_map_mapAttrs hwrap
    obtain ⟨front₀, rest₀, rfl, rfl, hrest⟩ := List.map_eq_append_iff.1 hcontents.symm
    obtain ⟨m, back₀, rfl, hm, rfl⟩ := List.map_eq_cons_iff.1 hrest
    obtain ⟨b₀, rfl, rfl⟩ := Node.mapAttrs_eq_block hm
    rw [endsInMouthWithCap_map hshape]
    show (f b₀.attrs).capEnd = true ↔
      ((f b₀.attrs).flag = some .cElse ∨ (f b₀.attrs).flag = some .cEnd) ∧ _
    rw [hcapEnd, hflag]
    exact h.inside shape front₀ b₀ back₀ hn
  · intro c inner b hmouth hb
    rw [nodes_mapAttrs] at hmouth
    obtain ⟨inner₀, hn, rfl⟩ := Node.mouth_mem_map_mapAttrs hmouth
    obtain ⟨b₀, hb₀, rfl⟩ := Node.block_mem_map_mapAttrs hb
    exact (hcapEnd _).trans (h.mouth c inner₀ b₀ hn hb₀)
  · intro b hb
    obtain ⟨b₀, hb₀, rfl⟩ := Node.block_mem_map_mapAttrs hb
    exact (hcapEnd _).trans (h.outside b₀ hb₀)
  · intro b hb a ha
    rw [blocks_mapAttrs, List.mem_map] at hb
    obtain ⟨b₀, hb₀, rfl⟩ := hb
    have hpieces : (b₀.mapAttrs f).pieces.flatMap Piece.allAttrs =
        (b₀.pieces.flatMap Piece.allAttrs).map f := by
      simpa [Block.allAttrs, Block.mapAttrs] using Block.allAttrs_mapAttrs f b₀
    rw [hpieces, List.mem_map] at ha
    obtain ⟨a₀, ha₀, rfl⟩ := ha
    exact (hcapEnd _).trans (h.nested b₀ hb₀ a₀ ha₀)
  · intro a ha
    rw [allAttrs_mapAttrs, List.mem_map] at ha
    obtain ⟨a₀, ha₀, rfl⟩ := ha
    have hnote : (f a₀).flagNote = a₀.flagNote := by rw [Attrs.flagNote, hflag, hcapEnd, Attrs.flagNote]
    have hwritten := h.written a₀ ha₀
    simp only [Attrs.flag_mem_fields_iff] at hwritten ⊢
    rw [hnote, hcapEnd]
    exact hwritten

end Script

/-! ## Texts -/

namespace Vocabulary

/-- The scripts that `parse` gives are `ExactlyMarked`. A C block has the shape of the block that `lineBlock`
    gives for the line which opens it, and starts with this block `asOpener`. -/
theorem parse_marks {v : Vocabulary} {text : Text} {w : Workspace} (h : v.parse text = .ok w) :
    ∀ s ∈ w.scripts, s.ExactlyMarked ∧
      ∀ shape contents, .wrap shape contents ∈ Script.nodes s →
        ∃ line ∈ Text.writtenLines text, ∃ opener, v.lineBlock line = .ok opener ∧
          opener.attrs.flag = some .cStart ∧ shape = opener.attrs.shape ∧
          ∃ later, contents = .block (opener.asOpener.mapAttrs w.session.resolved) :: later := by
  obtain ⟨w₀, hlayOut, rfl⟩ := parse_ok h
  obtain ⟨-, -, -, moves, hlayout, hblocks⟩ := layOut_ok hlayOut
  -- no line gives a marked block, so all marks are due to laying out
  have hsuits := Layout.run_suits Places.marked_keptFor moves
    (Lists.forall_right_of_forall₂ hblocks fun _ _ => lineBlock_isUnmarked)
  intro s hs
  rw [Workspace.scripts_resolve, List.mem_map] at hs
  obtain ⟨s₀, hs₀, rfl⟩ := hs
  have hs₀ : s₀ ∈ (Layout.run moves).scripts := hlayout ▸ hs₀
  constructor
  · refine (hsuits.scripts s₀ hs₀).exactlyMarked.mapAttrs fun a => ?_
    rw [Session.resolved_eq]
  · intro shape contents hwrap
    rw [Script.nodes_mapAttrs] at hwrap
    obtain ⟨contents₀, hn, rfl⟩ := Node.wrap_mem_map_mapAttrs hwrap
    -- the opener is a block that has been added, and so one that a line gives
    obtain ⟨b, hb, hflag, rfl, branches, last, hcontents, -, -⟩ := Layout.run_wrap moves hs₀ hn
    obtain ⟨line, hline, hread⟩ := Lists.exists_left_of_forall₂ hblocks hb
    obtain ⟨-, rfl⟩ := Node.wrap.inj hcontents
    exact ⟨line, hline, b, hread, hflag, rfl, _, by rw [List.map_cons, Node.mapAttrs_block]; rfl⟩

/-- A C block with the shape of a cap in another one: the block that divides it is marked, as a cap block
    comes before it, and so is the implied end of the outer one, which ends in the inner one. -/
theorem parse_marks_nested :
    ∃ w, (Vocabulary.empty true).parse
        "a :: cstart\nb :: cstart cap\nc :: cap\nd :: celse\ne :: cend".toList = .ok w ∧
      (w.scripts.flatMap Script.blocks).map (·.attrs.capEnd) =
        [false, false, false, true, false, true] ∧
      ∀ s ∈ w.scripts, s.ExactlyMarked := by
  -- the marks of all six blocks in order, evaluated at once
  have hmarks : ((Vocabulary.empty true).parse
      "a :: cstart\nb :: cstart cap\nc :: cap\nd :: celse\ne :: cend".toList).map
        (fun w => (w.scripts.flatMap Script.blocks).map (·.attrs.capEnd)) =
      .ok [false, false, false, true, false, true] := by decide +kernel
  cases hw : (Vocabulary.empty true).parse
      "a :: cstart\nb :: cstart cap\nc :: cap\nd :: celse\ne :: cend".toList with
  | error f =>
    rw [hw] at hmarks
    cases hmarks
  | ok w =>
    rw [hw] at hmarks
    exact ⟨w, rfl, Except.ok.inj hmarks, fun s hs => (parse_marks hw s hs).1⟩

end Vocabulary

end BlockScript
