import BlockScript.Proofs.Lists
import BlockScript.Proofs.Workspace.Lines
import BlockScript.Proofs.Workspace.Resolution

/-!
# No line is lost

The blocks of the scripts of a text, without the ends that nobody wrote, are the blocks of its written
lines, one by one and in order. Laying them out changes what ends a branch or opens a C block, and
resolving them changes categories; everything else stays as it was read.

## Key results

- `Vocabulary.layOut_settled`: the blocks that are laid out are those of the lines
- `Vocabulary.layOut_implied`: implied ends are as many as C blocks that no line closes
- `Vocabulary.parse_conserves_lines`: both are so for the scripts in the end
-/

namespace BlockScript

namespace Vocabulary

/-! ## Laid out, not yet resolved -/

/-- Whether a line opens a C block. -/
def opensAt (v : Vocabulary) (line : Text) : Bool :=
  match v.lineBlock line with
  | .ok b => b.attrs.flag == some .cStart
  | .error _ => false

/-- When a text has been laid out, its scripts are all there is to read back. -/
private theorem layOut_parts {w : Workspace} (h : w.layout.nesting = {}) :
    w.layout.parts = w.scripts.flatMap Script.parts ∧ w.layout.depth = 0 := by
  constructor
  · rw [Layout.parts, h]
    simp [Nesting.parts, Script.parts, Workspace.scripts]
  · rw [Layout.depth, h]
    rfl

private theorem map_snd_flatMap_parts (scripts : List Script) :
    (scripts.flatMap Script.parts).map (·.2) = scripts.flatMap Script.blocks := by
  rw [List.map_flatMap]
  congr 1
  funext s
  exact (Script.blocks_eq_parts s).symm

/-- What `layOut` gives for a text is the `Trace` of the blocks of its written lines. -/
theorem layOut_trace {v : Vocabulary} {text : Text} {w : Workspace} (h : v.layOut text = .ok w) :
    ∃ bs : List Block,
      List.Forall₂ (fun line b => v.lineBlock line = .ok b) (Text.writtenLines text) bs ∧
        (∀ b ∈ bs, b.Written) ∧ Layout.Trace bs (w.scripts.flatMap Script.parts) 0 := by
  obtain ⟨-, -, hnesting, moves, hlayout, hblocks⟩ := layOut_ok h
  obtain ⟨hparts, hdepth⟩ := layOut_parts hnesting
  have htrace := Layout.run_trace moves
  rw [← hlayout, hparts, hdepth] at htrace
  exact ⟨_, hblocks, Lists.forall_right_of_forall₂ hblocks fun _ _ => lineBlock_written, htrace⟩

/-- The blocks that `layOut` gives, without the implied ends, are those of the written lines, each one
    `Settled`. -/
theorem layOut_settled {v : Vocabulary} {text : Text} {w : Workspace} (h : v.layOut text = .ok w) :
    List.Forall₂ (fun line b => ∃ b₀, v.lineBlock line = .ok b₀ ∧ b₀.Settled b)
      (Text.writtenLines text)
      ((w.scripts.flatMap Script.blocks).filter fun b => !b.isImplied) := by
  obtain ⟨bs, hblocks, hwritten, htrace⟩ := layOut_trace h
  rw [← map_snd_flatMap_parts]
  exact Lists.forall₂_comp hblocks (htrace.settled hwritten)

/-- Each line that `opensAt` tells to open a C block has an implied end, or else a line closes its C block. -/
theorem layOut_implied {v : Vocabulary} {text : Text} {w : Workspace} (h : v.layOut text = .ok w) :
    (w.scripts.flatMap Script.blocks).countP (fun b => b.isImplied) +
        (w.scripts.flatMap Script.parts).countP (fun p => p.1 = .closes && !p.2.isImplied) =
      (Text.writtenLines text).countP v.opensAt := by
  obtain ⟨bs, hblocks, hwritten, htrace⟩ := layOut_trace h
  have hopens : (Text.writtenLines text).countP v.opensAt =
      bs.countP fun b => b.attrs.flag = some .cStart := by
    refine Lists.countP_eq_of_forall₂ hblocks fun line b hline => ?_
    simp [opensAt, hline, beq_eq_decide]
  rw [hopens, ← htrace.implied_add_written hwritten, ← map_snd_flatMap_parts, List.countP_map]
  rfl

end Vocabulary

/-! ## Resolved -/

/-- A block that `isImplied` is one after resolution, too, and no other is. -/
theorem Block.isImplied_mapAttrs_resolved (s : Session) (b : Block) :
    (b.mapAttrs s.resolved).isImplied = b.isImplied := by
  rw [Bool.eq_iff_iff, isImplied_iff, isImplied_iff]
  constructor
  · -- only the category can differ, and that of an implied end is left open
    rintro ⟨c, e, h⟩
    obtain ⟨hattrs, hpieces⟩ := Block.mk.inj h
    have hattrs : b.attrs = (impliedEnd.asEnder b.attrs.category e).attrs := by
      rw [Session.resolved_eq] at hattrs
      calc b.attrs = { { b.attrs with category := s.resolvedCategory b.attrs } with
              category := b.attrs.category } := rfl
        _ = _ := by rw [hattrs]; rfl
    have hpieces : b.pieces = [] := by
      rw [Piece.mapAttrsList_eq_map] at hpieces
      exact List.map_eq_nil_iff.1 hpieces
    obtain ⟨attrs, pieces⟩ := b
    exact ⟨attrs.category, e, Block.mk.injEq .. ▸ ⟨hattrs, hpieces⟩⟩
  · rintro ⟨c, e, rfl⟩
    refine ⟨s.resolvedCategory (impliedEnd.asEnder c e).attrs, e, ?_⟩
    simp only [mapAttrs, Session.resolved_eq]
    rfl

/-- The block that a line gives and the block of the scripts that it becomes: the same but for the
    categories that resolution sets, here and in the pieces, the category and the mark of a block that
    ends a branch, and the shape of a block that opens a C block. -/
structure Block.Conserved (s : Session) (b b' : Block) : Prop where
  id : b'.attrs.id = b.attrs.id
  flag : b'.attrs.flag = b.attrs.flag
  lang : b'.attrs.lang = b.attrs.lang
  comment : b'.attrs.comment = b.attrs.comment
  image : b'.attrs.image = b.attrs.image
  ringed : b'.attrs.ringed = b.attrs.ringed
  pieces : b'.pieces = Piece.mapAttrsList s.resolved b.pieces
  shape : b'.attrs.shape = if b.attrs.flag = some .cStart then some .stack else b.attrs.shape
  unlessEnder : b.attrs.flag ≠ some .cElse → b.attrs.flag ≠ some .cEnd →
    b'.attrs.category = s.resolvedCategory b.attrs ∧ b'.attrs.capEnd = b.attrs.capEnd

/-- A block that is `Settled` by laying out is `Conserved` when it is resolved. -/
theorem Block.Settled.conserved {b b' : Block} (h : b.Settled b') (s : Session) :
    b.Conserved s (b'.mapAttrs s.resolved) := by
  have hattrs : (b'.mapAttrs s.resolved).attrs =
      { b.attrs with
        category := s.resolvedCategory b'.attrs
        shape := b'.attrs.shape
        capEnd := b'.attrs.capEnd } := by
    rw [Block.mapAttrs, Session.resolved_eq, h.attrs]
  -- the texts and names are kept as they are, and the pieces are resolved
  refine ⟨by rw [hattrs], by rw [hattrs], by rw [hattrs], by rw [hattrs], by rw [hattrs],
    by rw [hattrs], ?_, ?_, ?_⟩
  · rw [Block.mapAttrs, h.pieces]
  · rw [hattrs]
    exact h.shape
  · intro helse hend
    obtain ⟨hcategory, hcapEnd⟩ := h.unlessEnder helse hend
    rw [hattrs]
    refine ⟨?_, hcapEnd⟩
    -- the shape, which an opener gives up, is not looked at
    rw [h.attrs]
    simp only [Session.resolvedCategory, hcategory]

namespace Vocabulary

/-- When a text is parsed, its written lines are all there, once each and in order: the `Script.blocks`
    without the implied ends are what `lineBlock` gives for the lines, each one `Conserved`. The implied ends
    are as many as the lines that `opensAt` tells to open a C block, less the parts that close one. -/
theorem parse_conserves_lines {v : Vocabulary} {text : Text} {w : Workspace}
    (h : v.parse text = .ok w) :
    List.Forall₂ (fun line b => ∃ b₀, v.lineBlock line = .ok b₀ ∧ b₀.Conserved w.session b)
        ((Text.lines text).filter fun line => Text.trim line ≠ [])
        ((w.scripts.flatMap Script.blocks).filter fun b => !b.isImplied) ∧
      (w.scripts.flatMap Script.blocks).countP (fun b => b.isImplied) =
        ((Text.lines text).filter fun line => Text.trim line ≠ []).countP v.opensAt -
          (w.scripts.flatMap Script.parts).countP (fun p => p.1 = .closes && !p.2.isImplied) ∧
      (w.scripts.flatMap Script.parts).countP (fun p => p.1 = .closes && !p.2.isImplied) ≤
        ((Text.lines text).filter fun line => Text.trim line ≠ []).countP v.opensAt := by
  obtain ⟨w₀, hlayOut, rfl⟩ := parse_ok h
  -- the lines as they stand in the text, not yet trimmed
  have hlines : Text.writtenLines text =
      ((Text.lines text).filter fun line => Text.trim line ≠ []).map Text.trim := by
    rw [Text.writtenLines, List.filter_map]
    rfl
  -- resolution changes each block and each part where it stands
  have hblocks : w₀.resolve.scripts.flatMap Script.blocks =
      (w₀.scripts.flatMap Script.blocks).map (Block.mapAttrs w₀.session.resolved) := by
    simp only [Workspace.scripts_resolve, List.flatMap_map, List.map_flatMap,
      Script.blocks_mapAttrs]
  have hparts : w₀.resolve.scripts.flatMap Script.parts =
      (w₀.scripts.flatMap Script.parts).map fun p => (p.1, p.2.mapAttrs w₀.session.resolved) := by
    simp only [Workspace.scripts_resolve, List.flatMap_map, List.map_flatMap,
      Script.parts_mapAttrs]
  -- the count comes from laying out, which takes trimmed lines
  have himplied := layOut_implied hlayOut
  rw [hlines, List.countP_map] at himplied
  have hopens : v.opensAt ∘ Text.trim = v.opensAt := by
    funext line
    simp only [Function.comp_apply, opensAt, lineBlock_trim]
  rw [hopens] at himplied
  have hsettled := layOut_settled hlayOut
  rw [hlines, List.forall₂_map_left_iff] at hsettled
  refine ⟨?_, ?_, ?_⟩
  · rw [hblocks, List.filter_map, List.forall₂_map_right_iff]
    -- the same blocks are implied ends before resolution and after it
    have hkept : ((fun b => !b.isImplied) ∘ Block.mapAttrs w₀.session.resolved) =
        fun b => !b.isImplied := by
      funext b
      simp only [Function.comp_apply, Block.isImplied_mapAttrs_resolved]
    rw [hkept]
    refine hsettled.imp ?_
    rintro line b ⟨b₀, hline, hb⟩
    exact ⟨b₀, by rw [← lineBlock_trim]; exact hline, hb.conserved _⟩
  · rw [hblocks, hparts, List.countP_map, List.countP_map]
    simp only [Function.comp_def, Block.isImplied_mapAttrs_resolved]
    omega
  · rw [hparts, List.countP_map]
    simp only [Function.comp_def, Block.isImplied_mapAttrs_resolved]
    omega

/-- A C block that no line closes: the two lines are there, next to the end that nobody wrote. -/
theorem parse_conserves_lines_unclosed :
    ∃ w, (Vocabulary.empty true).parse "a :: cstart\nb".toList = .ok w ∧
      ((w.scripts.flatMap Script.blocks).filter fun b => !b.isImplied).length = 2 := by
  obtain ⟨w, hw⟩ : ∃ w, (Vocabulary.empty true).parse "a :: cstart\nb".toList = .ok w :=
    exists_eq_ok_of_isOk (by decide +kernel)
  obtain ⟨hblocks, -, -⟩ := parse_conserves_lines hw
  refine ⟨w, hw, ?_⟩
  rw [← hblocks.length_eq]
  decide

end Vocabulary

end BlockScript
