import BlockScript.Proofs.Workspace.Exactness
import BlockScript.Proofs.Workspace.WellBuilt

/-!
# The colour of a C block

A C block should be in one colour: its opener, its mouths and the blocks that end its branches in one
category. It is when it has been laid out, since mouths and enders take the category of the opener. But
resolution looks at each block for itself and never at a mouth, so it can take the opener or an ender
out of the category of the others.

## Key results

- `Vocabulary.c_block_coherent_iff`: a C block stays in one category just if resolution moves none of the
  blocks that it is built of
- `Vocabulary.c_block_incoherent`: a C block of which the opener is moved
-/

namespace BlockScript

/-! ## Coherence -/

/-- Whether what a C block holds directly is all in the category of the block that opens it. -/
def Node.isCoherent (n : Node) : Bool := n.contents.all fun inner => inner.category == n.category

/-- Whether resolution moves a block into another category: it is unknown and the text defines it, or it
    is an unknown reporter with the name of a list or a parameter. -/
def Attrs.IsMoved (s : Session) (a : Attrs) : Prop :=
  (a.category = some .obsolete ∧ ∃ key ∈ s.definitions, a.calledAs = some key) ∨
    (a.category = some .vars ∧ ∃ name ∈ s.lists ++ s.parameters, a.namedAs = some name)

/-- A block keeps its `category` just if it is not moved. -/
theorem Session.resolved_category_eq_iff (s : Session) (a : Attrs) :
    (s.resolved a).category = a.category ↔ ¬ a.IsMoved s := by
  rw [resolved_eq]
  unfold Attrs.IsMoved
  obtain ⟨hc, hkey, hnew⟩ | ⟨hc, hname, hnew⟩ | ⟨hc, hname, hnew⟩ | ⟨hcall, hname, hnew⟩ :=
    s.resolvedCategory_cases a
  · simp [hc, hkey, hnew]
  · obtain ⟨name, hname, hnamed⟩ := hname
    simp [hc, hnew, hnamed, hname]
  · obtain ⟨name, hname, hnamed, -⟩ := hname
    simp [hc, hnew, hnamed, hname]
  · simp only [hnew, true_iff]
    -- what no pass has taken has no entry in a table
    rintro (⟨hc, hkey⟩ | ⟨hc, name, hmem, hnamed⟩)
    · exact hcall hc hkey
    · obtain ⟨hlist, hparameter⟩ := hname hc
      rcases List.mem_append.1 hmem with hmem | hmem
      · exact hlist ⟨name, hmem, hnamed⟩
      · exact hparameter ⟨name, hmem, hnamed, fun hl => hlist ⟨name, hl, hnamed⟩⟩

namespace Node

/-- A C block `isCoherent` if its mouths and the ends of its branches have the category of the opener. -/
private theorem isCoherent_cBlock_iff (s : Option Shape) (opener : Block) (branches : List Branch) :
    (cBlock s opener branches).isCoherent = true ↔
      ∀ b ∈ branches, b.category = opener.attrs.category ∧
        b.ender.attrs.category = opener.attrs.category := by
  simp only [isCoherent, cBlock, contents, category, List.all_cons, beq_self_eq_true, Bool.true_and,
    List.all_flatMap, Branch.nodes, List.all_nil, Bool.and_true, List.all_eq_true, Bool.and_eq_true,
    beq_iff_eq]

/-- A change of attributes reaches the opener and the branches of a C block. -/
private theorem mapAttrs_cBlock (f : Attrs → Attrs) (s : Option Shape) (opener : Block)
    (branches : List Branch) :
    (cBlock s opener branches).mapAttrs f =
      cBlock s (opener.mapAttrs f) (branches.map (Branch.mapAttrs f)) := by
  simp [cBlock, List.map_flatMap, List.flatMap_map, Branch.nodes, Branch.mapAttrs]

/-- The blocks that a C block is built of. -/
private theorem innerBlocks_cBlock (s : Option Shape) (opener : Block) (branches : List Branch) :
    (cBlock s opener branches).innerBlocks = opener :: branches.map Branch.ender := by
  have hbranches : (branches.flatMap Branch.nodes).filterMap block? = branches.map Branch.ender := by
    induction branches with
    | nil => rfl
    | cons b bs ih =>
      simp only [List.flatMap_cons, Branch.nodes, List.cons_append, List.nil_append,
        List.filterMap_cons, block?, ih, List.map_cons]
  simp [innerBlocks, cBlock, contents, block?, hbranches]

/-- A C block that is well built is in one category, and stays in one when it is resolved just if none of
    the blocks that it is built of is moved. -/
private theorem isCoherent_mapAttrs_iff {shape : Option Shape} {contents : List Node}
    (h : (Node.wrap shape contents).WellBuilt) (s : Session) :
    (Node.wrap shape contents).isCoherent = true ∧
      (((Node.wrap shape contents).mapAttrs s.resolved).isCoherent = true ↔
        ∀ b ∈ (Node.wrap shape contents).innerBlocks, ¬ b.attrs.IsMoved s) := by
  obtain ⟨opener, branches, last, hwrap, -, -, hbranches, hlast⟩ := h
  -- as it is built, the C block is in the category of its opener throughout
  have hfits : ∀ b ∈ branches ++ [last], b.category = opener.attrs.category ∧
      b.ender.attrs.category = opener.attrs.category := by
    refine List.forall_mem_append.2 ⟨fun b hb => ⟨(hbranches b hb).mouth, (hbranches b hb).ender⟩, ?_⟩
    simpa using And.intro hlast.mouth hlast.ender
  rw [hwrap, mapAttrs_cBlock, isCoherent_cBlock_iff, isCoherent_cBlock_iff, innerBlocks_cBlock]
  refine ⟨hfits, ?_⟩
  simp only [List.forall_mem_map, List.forall_mem_cons, ← Session.resolved_category_eq_iff]
  constructor
  · intro h
    -- a mouth keeps its category, so the opener has kept its own
    have hopener : (s.resolved opener.attrs).category = opener.attrs.category := by
      have hmem : last ∈ branches ++ [last] := by simp
      rw [← (hfits last hmem).1]
      exact (h last hmem).1.symm
    refine ⟨hopener, fun b hb => ?_⟩
    rw [(hfits b hb).2, ← hopener]
    exact (h b hb).2
  · rintro ⟨hopener, henders⟩ b hb
    have hopener' : (opener.mapAttrs s.resolved).attrs.category = opener.attrs.category := hopener
    refine ⟨?_, ?_⟩
    · rw [hopener']
      exact (hfits b hb).1
    · rw [hopener', ← (hfits b hb).2]
      exact henders b hb

end Node

namespace Vocabulary

/-- Before a text is resolved each of its C blocks, at any depth, `isCoherent`: it is in one category. In the
    end it is so just for those of which no block of the C block itself `IsMoved`, neither the opener nor one
    that ends a branch. -/
theorem c_block_coherent_iff {v : Vocabulary} {text : Text} {w : Workspace}
    (h : v.layOut text = .ok w) :
    v.parse text = .ok w.resolve ∧
      w.resolve.scripts.flatMap Script.nodes =
        (w.scripts.flatMap Script.nodes).map (Node.mapAttrs w.session.resolved) ∧
      ∀ shape contents, .wrap shape contents ∈ w.scripts.flatMap Script.nodes →
        (Node.wrap shape contents).isCoherent = true ∧
          (((Node.wrap shape contents).mapAttrs w.session.resolved).isCoherent = true ↔
            ∀ b ∈ (Node.wrap shape contents).innerBlocks, ¬ b.attrs.IsMoved w.session) := by
  obtain ⟨-, -, -, moves, hlayout, -⟩ := layOut_ok h
  refine ⟨?_, ?_, ?_⟩
  · rw [parse_eq, h]
    rfl
  · simp only [Workspace.scripts_resolve, List.flatMap_map, List.map_flatMap, Script.nodes_mapAttrs]
  · intro shape contents hmem
    obtain ⟨s, hs, hmem⟩ := List.mem_flatMap.1 hmem
    have hbuilt := Layout.run_wellBuilt moves
    rw [← hlayout] at hbuilt
    exact Node.isCoherent_mapAttrs_iff ((hbuilt.scripts s hs).inside _ hmem) w.session

/-- A C block whose opener is moved when the text is resolved, while its mouth stays. -/
theorem c_block_coherent_iff_of_defined_opener :
    ∃ w, defining.layOut "define foo\nfoo :: cstart".toList = .ok w ∧
      ∀ shape contents, .wrap shape contents ∈ w.scripts.flatMap Script.nodes →
        (((Node.wrap shape contents).mapAttrs w.session.resolved).isCoherent = true ↔
          ∀ b ∈ (Node.wrap shape contents).innerBlocks, ¬ b.attrs.IsMoved w.session) := by
  obtain ⟨w, hw⟩ : ∃ w, defining.layOut "define foo\nfoo :: cstart".toList = .ok w :=
    exists_eq_ok_of_isOk (by decide +kernel)
  obtain ⟨-, -, hcoherent⟩ := c_block_coherent_iff hw
  exact ⟨w, hw, fun shape contents hmem => (hcoherent shape contents hmem).2⟩

/-- There is a text with a C block that is not in one category in the end. -/
theorem c_block_incoherent :
    ∃ w, defining.parse "define foo\nfoo :: cstart".toList = .ok w ∧
      ∃ shape contents, .wrap shape contents ∈ w.scripts.flatMap Script.nodes ∧
        (Node.wrap shape contents).isCoherent = false := by
  have hsome : ((defining.parse "define foo\nfoo :: cstart".toList).toOption.any fun w =>
      (w.scripts.flatMap Script.nodes).any fun n => !n.isMouth && !n.isCoherent) = true := by
    decide +kernel
  cases h : defining.parse "define foo\nfoo :: cstart".toList with
  | error f =>
    rw [h] at hsome
    cases hsome
  | ok w =>
    rw [h] at hsome
    obtain ⟨n, hmem, hn⟩ := List.any_eq_true.1 hsome
    simp only [Bool.and_eq_true, Bool.not_eq_true'] at hn
    -- of what is found only the C block can be incoherent
    cases n with
    | block b => exact absurd hn.2 (by simp [Node.isCoherent, Node.contents])
    | wrap shape contents => exact ⟨w, rfl, shape, contents, hmem, hn.2⟩
    | mouth c inner => exact absurd hn.1 (by simp [Node.isMouth])

end Vocabulary

end BlockScript
