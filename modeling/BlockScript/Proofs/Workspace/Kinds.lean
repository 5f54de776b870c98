import BlockScript.Proofs.Reading.Kind
import BlockScript.Proofs.Workspace.Conservation
import BlockScript.Proofs.Workspace.WellBuilt

/-!
# The kinds of what stands in scripts

The blocks of a script are blocks proper and comments. Lines give such blocks, and laying them out changes
them in three ways: a block that opens a C block gives up its shape, a block that ends a branch takes on the
category of its C block, and ends that nobody wrote are put in, in that category too. As the category of a C
block is that of a block proper, all of these stay what they are. A comment ends no branch and opens no C
block, so it stands in a script or in a mouth.

## Key results

- `Layout.run_blocks`: what laying out keeps holds of all blocks of the scripts
- `Block.IsStanding`: a block as it stands in a script
- `Vocabulary.parse_classified`: in the scripts of a text everything is of one kind and in its place
-/

namespace BlockScript

/-! ## What laying out keeps -/

/-- A property of blocks that laying out keeps: when a block opens a C block, and when a block or an implied
    end ends a branch of one, in the category of the opener. -/
structure Block.KeptByLayout (P : Block → Prop) : Prop where
  opens : ∀ b, P b → b.attrs.flag = some .cStart → P b.asOpener
  ends : ∀ b opener e, P b → P opener → opener.attrs.flag = some .cStart →
    b.attrs.flag = some .cElse ∨ b.attrs.flag = some .cEnd → P (b.asEnder opener.attrs.category e)
  implied : ∀ opener e, P opener → opener.attrs.flag = some .cStart →
    P (impliedEnd.asEnder opener.attrs.category e)

/-- A property of blocks as it is asked of them in every place. -/
def Places.everywhere (P : Block → Prop) : Places where
  item := P
  opener _ b := P b ∧ b.attrs.flag = some .cStart
  ender _ _ _ := P

/-- What is `KeptByLayout` of a block is kept in every place. -/
theorem Block.KeptByLayout.keptFor {P : Block → Prop} (h : KeptByLayout P) :
    (Places.everywhere P).KeptFor P := by
  refine ⟨fun b hb _ => hb, fun b hb hflag => ⟨h.opens b hb hflag, hflag⟩, ?_⟩
  rintro flag b shape opener inner hb hender hflag ⟨hopener, hstart⟩
  rcases hb with hb | rfl
  · refine h.ends b opener _ hb hopener hstart ?_
    rw [hflag]
    exact hender.imp (congrArg some) (congrArg some)
  · exact h.implied opener _ hopener hstart

/-- What is `KeptByLayout` holds of all blocks of the scripts, if it holds of those that have been added. -/
theorem Layout.run_blocks {P : Block → Prop} (hP : Block.KeptByLayout P) (moves : List Move)
    (h : ∀ b ∈ added moves, P b) : ∀ s ∈ (run moves).scripts, ∀ b ∈ Script.blocks s, P b := by
  intro s hs b hb
  obtain hitem | ⟨_, hopener⟩ | ⟨_, _, _, hender⟩ :=
    ((run_suits hP.keptFor moves h).scripts s hs).blocks hb
  · exact hitem
  · exact hopener.1
  · exact hender

/-! ## Blocks that stand in scripts -/

/-- A block as it stands in a script: everything in it is in its place, and it is a block proper or a
    comment. -/
structure Block.IsStanding (b : Block) : Prop where
  fresh : b.IsFresh
  kind : b.IsOf .proper ∨ b.IsOf .comment

namespace Block

/-- With a `flag` it is a block proper. -/
private theorem IsStanding.isOf_proper {b : Block} (h : b.IsStanding) (hflag : b.attrs.flag ≠ none) :
    b.IsOf .proper :=
  h.kind.resolve_right fun hcomment => hflag (IsCommentKind.flag hcomment)

/-- With a `flag` it is no header. -/
private theorem IsStanding.shape_ne_defineHat {b : Block} (h : b.IsStanding) (hflag : b.attrs.flag ≠ none) :
    b.attrs.shape ≠ some .defineHat :=
  fun hheader => hflag (h.fresh.header hheader)

/-- That a block `IsStanding` is `KeptByLayout`. -/
theorem isStanding_keptByLayout : KeptByLayout IsStanding := by
  -- what ends a branch takes the category of the opener, written or implied
  have hends : ∀ b opener : Block, ∀ e, b.IsStanding → opener.IsStanding →
      opener.attrs.flag = some .cStart → b.attrs.flag ≠ none →
        (b.asEnder opener.attrs.category e).IsStanding := by
    intro b opener e hb hopener hstart hflag
    have hproper := hb.isOf_proper hflag
    obtain ⟨-, hshape, hflags⟩ : b.IsProperKind := hb.isOf_proper hflag
    obtain ⟨hcategory, -, -⟩ : opener.IsProperKind := hopener.isOf_proper (by simp [hstart])
    have hender : (b.asEnder opener.attrs.category e).IsOf .proper := ⟨hcategory, hshape, hflags⟩
    have hclassified : (b.asEnder opener.attrs.category e).Classified :=
      hb.fresh.classified.congr rfl rfl (fun hheader => hheader) hproper hender
    exact ⟨⟨hclassified, hb.fresh.unringed, hb.fresh.header⟩, .inl hender⟩
  refine ⟨fun b hb hflag => ?_, fun b opener e hb hopener hstart hflag => ?_, fun opener e hopener hstart => ?_⟩
  · -- what opens a C block is no header, so nothing depends on its shape
    have hsome : b.attrs.flag ≠ none := by simp [hflag]
    have hproper := hb.isOf_proper hsome
    obtain ⟨hcategory, -, hflags⟩ : b.IsProperKind := hb.isOf_proper hsome
    have hopener : b.asOpener.IsOf .proper := ⟨hcategory, ⟨.stack, by decide, rfl⟩, hflags⟩
    have hclassified : b.asOpener.Classified :=
      hb.fresh.classified.congr rfl rfl (fun hheader => absurd hheader (hb.shape_ne_defineHat hsome)) hproper hopener
    exact ⟨⟨hclassified, hb.fresh.unringed, by simp [asOpener]⟩, .inl hopener⟩
  · exact hends b opener e hb hopener hstart (by rcases hflag with hflag | hflag <;> simp [hflag])
  · have himplied : impliedEnd.IsOf .proper :=
      ⟨⟨.control, by decide, rfl⟩, ⟨.stack, by decide, rfl⟩, by simp [impliedEnd, Flag.standard]⟩
    have hstanding : impliedEnd.IsStanding :=
      ⟨⟨classified_of_arguments_eq_nil himplied rfl, rfl, by simp [impliedEnd]⟩, .inl himplied⟩
    exact hends impliedEnd opener e hstanding hopener hstart (by simp [impliedEnd])

end Block

/-! ## Texts -/

/-- Resolving names moves blocks from category to category. -/
private theorem Session.resolved_recolours (s : Session) : Block.Recolours s.resolved := by
  refine ⟨fun a => by rw [resolved_eq], fun a hnone => ?_, fun a c hc hcategory => ?_⟩
  · rw [resolved_eq]
    simp [resolvedCategory, hnone]
  · rw [resolved_eq]
    obtain ⟨-, -, hnew⟩ | ⟨-, -, hnew⟩ | ⟨-, -, hnew⟩ | ⟨-, -, hnew⟩ := s.resolvedCategory_cases a
    · exact ⟨.custom, by decide, hnew⟩
    · exact ⟨.list, by decide, hnew⟩
    · exact ⟨.customArg, by decide, hnew⟩
    · exact ⟨c, hc, hnew.trans hcategory⟩

/-- A script in which everything is of one kind and in its place. Its blocks are blocks proper and comments,
    none with a ring, and comments do not stand directly in a C block. What is nested in a block is of one
    kind too, and stands where that may stand. -/
structure Script.Classified (s : Script) : Prop where
  blocks : ∀ b, .block b ∈ nodes s →
    (b.IsOf .proper ∨ b.IsOf .comment) ∧ b.attrs.ringed = false ∧ b.Classified
  wraps : ∀ shape contents, .wrap shape contents ∈ nodes s → ∀ b, .block b ∈ contents → b.IsOf .proper

namespace Vocabulary

/-- The index of a vocabulary of packs names known blocks alone, as `NamesKnown` says. -/
theorem namesKnown_ofPacks (folded : Bool) (ps : List Pack) : (ofPacks folded ps).NamesKnown :=
  fun _ _ _ h => (index_ofPacks h).1

/-- The block that `lineBlock` gives `IsStanding`, also if the line is nested too deeply. -/
theorem lineBlock_isStanding {v : Vocabulary} (hv : v.NamesKnown) {line : Text} {b : Block}
    (h : v.lineBlock line = .ok b) : b.IsStanding := by
  obtain hread | ⟨-, rfl⟩ := lineBlock_ok h
  · obtain ⟨hfresh, hkind⟩ := readLine_isFresh hv hread
    exact ⟨hfresh, hkind⟩
  · have hproper : (Workspace.unread line).IsOf .proper :=
      ⟨⟨.obsolete, by decide, rfl⟩, ⟨.stack, by decide, rfl⟩, by simp [Workspace.unread]⟩
    exact ⟨⟨Block.classified_of_arguments_eq_nil hproper rfl, rfl, fun _ => rfl⟩, .inl hproper⟩

/-- Whatever packs have been loaded, the scripts that `parse` gives are `Classified`: everything in them is of
    one kind and in its place. -/
theorem parse_classified {folded : Bool} {ps : List Pack} {text : Text} {w : Workspace}
    (h : (ofPacks folded ps).parse text = .ok w) : ∀ s ∈ w.scripts, s.Classified := by
  obtain ⟨w₀, hlayOut, rfl⟩ := parse_ok h
  obtain ⟨-, -, -, moves, hlayout, hblocks⟩ := layOut_ok hlayOut
  have hadded : ∀ b ∈ Layout.added moves, b.IsStanding :=
    Lists.forall_right_of_forall₂ hblocks fun _ _ => lineBlock_isStanding (namesKnown_ofPacks folded ps)
  -- all blocks that are laid out are of a kind, and so is what laying out makes of them
  have hstanding := Layout.run_blocks Block.isStanding_keptByLayout moves hadded
  have hbuilt := Layout.run_wellBuilt moves
  rw [← hlayout] at hstanding hbuilt
  intro s hs
  rw [Workspace.scripts_resolve, List.mem_map] at hs
  obtain ⟨s₀, hs₀, rfl⟩ := hs
  have hcolours := w₀.session.resolved_recolours
  have hstanding : ∀ b, .block b ∈ Script.nodes s₀ → b.IsStanding :=
    fun b hb => hstanding s₀ hs₀ b (Script.mem_blocks_iff.2 hb)
  constructor
  · -- resolution changes the colours, which no kind depends on
    intro b hb
    rw [Script.nodes_mapAttrs] at hb
    obtain ⟨b₀, hb₀, rfl⟩ := Node.block_mem_map_mapAttrs hb
    obtain ⟨hfresh, hkind⟩ := hstanding b₀ hb₀
    refine ⟨hkind.imp (·.mapAttrs hcolours) (·.mapAttrs hcolours), ?_, hfresh.classified.mapAttrs hcolours⟩
    rw [hcolours.ringed]
    exact hfresh.unringed
  · -- what stands directly in a C block has a flag, so it is a block proper
    intro shape contents hwrap b hb
    rw [Script.nodes_mapAttrs] at hwrap
    obtain ⟨contents₀, hn, rfl⟩ := Node.wrap_mem_map_mapAttrs hwrap
    obtain ⟨b₀, hb₀, rfl⟩ := Node.block_mem_map_mapAttrs hb
    have hnode : .block b₀ ∈ Script.nodes s₀ := Script.mem_nodes_of_mem_wrap hn hb₀
    exact ((hstanding b₀ hnode).isOf_proper
      (((hbuilt.scripts s₀ hs₀).inside _ hn).flag_ne_none hb₀)).mapAttrs hcolours

/-- A pack with a word for headers and nothing else. -/
def definingPack : Pack := { code := "xx".toList, blocks := [], headerWords := ["define".toList] }

/-- A header, a block with a ring around its insert, and a comment in a C block. -/
theorem parse_classified_of_ring :
    ∃ w, (ofPacks true [definingPack]).parse
        "define foo (bar)\nqux [baz] :: ring\n\nfoo :: cstart\n// note".toList = .ok w ∧
      w.scripts.length = 3 ∧ ∀ s ∈ w.scripts, s.Classified := by
  have hlength : ((ofPacks true [definingPack]).parse
      "define foo (bar)\nqux [baz] :: ring\n\nfoo :: cstart\n// note".toList).map
        (fun w => w.scripts.length) = .ok 3 := by decide +kernel
  cases hw : (ofPacks true [definingPack]).parse
      "define foo (bar)\nqux [baz] :: ring\n\nfoo :: cstart\n// note".toList with
  | error f =>
    rw [hw] at hlength
    cases hlength
  | ok w =>
    rw [hw] at hlength
    exact ⟨w, rfl, Except.ok.inj hlength, parse_classified hw⟩

end Vocabulary

end BlockScript
