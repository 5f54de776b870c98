import BlockScript.Proofs.Lists
import BlockScript.Proofs.Script.Alike
import BlockScript.Proofs.Workspace.Succession

/-!
# Layouts that are alike

Where a block goes is decided by its shape, its flag and whether it is a comment, and what a C block tells
the blocks that end its branches is a category and whether there is a cap. So if two blocks agree in these,
then adding the one to a layout and the other to a layout that is alike makes layouts that are alike.

## Key results

- `Nesting.Alike.closeWith`: a C block may be closed by either of two related blocks
- `Layout.Alike.add`, `Layout.Alike.newScript`: layouts stay alike with every move
- `Vocabulary.layOut_alike`: texts with lines that read alike are laid out alike
-/

namespace BlockScript

/-- `PlacedAlike r`: blocks that `r` relates agree in what decides where they go and what they do there, also
    when they open a C block or end a branch of one. -/
structure Block.PlacedAlike (r : Block → Block → Prop) : Prop where
  refl : ∀ b, r b b
  category : ∀ b b', r b b' → b'.attrs.category = b.attrs.category
  shape : ∀ b b', r b b' → b'.attrs.shape = b.attrs.shape
  flag : ∀ b b', r b b' → b'.attrs.flag = b.attrs.flag
  capEnd : ∀ b b', r b b' → b'.attrs.capEnd = b.attrs.capEnd
  comment : ∀ b b', r b b' → b'.isComment = b.isComment
  opens : ∀ b b', r b b' → b.attrs.flag = some .cStart → r b.asOpener b'.asOpener
  ends : ∀ b b', r b b' → b.attrs.flag = some .cElse ∨ b.attrs.flag = some .cEnd →
    ∀ c e, r (b.asEnder c e) (b'.asEnder c e)

section

variable (r : Block → Block → Prop)

/-- Two open C blocks that are alike as far as they have got. -/
structure Frame.Alike (f f' : Frame) : Prop where
  before : Script.Alike r f.before f'.before
  shape : f'.shape = f.shape
  opener : r f.opener f'.opener
  branches : List.Forall₂ (Branch.Alike r) f.branches f'.branches
  mouth : f'.mouth = f.mouth

/-- Two nestings that are alike. -/
structure Nesting.Alike (n n' : Nesting) : Prop where
  frames : List.Forall₂ (Frame.Alike r) n.frames n'.frames
  inner : Script.Alike r n.inner n'.inner

/-- Two layouts that are alike. -/
structure Layout.Alike (l l' : Layout) : Prop where
  scripts : List.Forall₂ (Script.Alike r) l.scripts l'.scripts
  nesting : l.nesting.Alike r l'.nesting

end

variable {r : Block → Block → Prop}

/-! ## Nestings -/

namespace Nesting

/-- A nesting is `Alike` itself if its blocks are related to themselves. -/
theorem Alike.refl (hr : ∀ b, r b b) (n : Nesting) : n.Alike r n := by
  refine ⟨List.forall₂_same.2 fun f _ => ?_, Script.Alike.refl hr _⟩
  exact ⟨Script.Alike.refl hr _, rfl, hr _, List.forall₂_same.2 fun b _ => Branch.Alike.refl hr b, rfl⟩

/-- Nestings that are `Alike` have as many open C blocks, so both are flat or neither is. -/
private theorem Alike.isFlat_eq {n n' : Nesting} (h : n.Alike r n') : n'.isFlat = n.isFlat :=
  Lists.isEmpty_eq_of_forall₂ h.frames

/-- Both are empty or neither is. -/
private theorem Alike.isEmpty_eq {n n' : Nesting} (h : n.Alike r n') : n'.isEmpty = n.isEmpty := by
  rw [isEmpty, isEmpty, Lists.isEmpty_eq_of_forall₂ h.frames, Lists.isEmpty_eq_of_forall₂ h.inner]

/-- Related blocks can be placed in nestings that are `Alike`. -/
theorem Alike.place {n n' : Nesting} (h : n.Alike r n') {b b' : Block} (hb : r b b') :
    (n.place (.block b)).Alike r (n'.place (.block b')) :=
  ⟨h.frames, h.inner.append (.cons (.block hb) .nil)⟩

variable (hr : Block.PlacedAlike r)

include hr

/-- Both end in a cap or neither does. -/
private theorem Alike.endsInCap_eq {n n' : Nesting} (h : n.Alike r n') : n'.endsInCap = n.endsInCap := by
  have hlast : n'.inner.getLast?.map Node.shape = n.inner.getLast?.map Node.shape := by
    rw [← List.getLast?_map, ← List.getLast?_map, h.inner.map_shape hr.shape]
  -- only the shape of the last node is looked at
  have hany : ∀ n : Nesting, n.endsInCap = (n.inner.getLast?.map Node.shape).any (· == some .cap) := by
    intro n
    rw [endsInCap]
    cases n.inner.getLast? <;> rfl
  rw [hany, hany, hlast]

/-- Related blocks open C blocks that are `Alike`. -/
theorem Alike.openWith {n n' : Nesting} (h : n.Alike r n') {b b' : Block} (hb : r b b')
    (hflag : b.attrs.flag = some .cStart) : (n.openWith b).Alike r (n'.openWith b') := by
  refine ⟨.cons ⟨h.inner, hr.shape _ _ hb, hr.opens _ _ hb hflag, .nil, hr.category _ _ hb⟩ h.frames, .nil⟩

/-- Related blocks end the branches of C blocks that are `Alike` as related blocks. -/
theorem Alike.branchEnd {n n' : Nesting} (h : n.Alike r n') {f f' : Frame} (hf : f.Alike r f') {b b' : Block}
    (hb : r b b') (hflag : b.attrs.flag = some .cElse ∨ b.attrs.flag = some .cEnd) :
    r (n.branchEnd f b) (n'.branchEnd f' b') := by
  rw [branchEnd_eq, branchEnd_eq, hr.category _ _ hf.opener, hr.capEnd _ _ hb, h.endsInCap_eq hr]
  exact hr.ends _ _ hb hflag _ _

/-- Nestings stay `Alike` if a branch is ended, and the next one started, by either of two related blocks. -/
theorem Alike.divideWith {n n' : Nesting} (h : n.Alike r n') {b b' : Block} (hb : r b b')
    (hflag : b.attrs.flag = some .cElse) : (n.divideWith b).Alike r (n'.divideWith b') := by
  obtain ⟨frames, inner⟩ := n
  obtain ⟨frames', inner'⟩ := n'
  -- where no C block is open, the block is placed like any other
  cases h.frames with
  | nil => exact h.place hb
  | cons hf houter =>
    refine ⟨.cons ⟨hf.before, hf.shape, hf.opener, ?_, hr.category _ _ hf.opener⟩ houter, .nil⟩
    exact List.rel_append hf.branches (.cons ⟨hf.mouth, h.inner, h.branchEnd hr hf hb (.inl hflag)⟩ .nil)

/-- Nestings stay `Alike` if a C block is closed by either of two related blocks. -/
theorem Alike.closeWith {n n' : Nesting} (h : n.Alike r n') {b b' : Block} (hb : r b b')
    (hflag : b.attrs.flag = some .cEnd) : (n.closeWith b).Alike r (n'.closeWith b') := by
  obtain ⟨frames, inner⟩ := n
  obtain ⟨frames', inner'⟩ := n'
  cases h.frames with
  | nil => exact h.place hb
  | @cons f f' _ _ hf houter =>
    refine ⟨houter, hf.before.append (.cons ?_ .nil)⟩
    -- the last branch is added to those that have been ended before
    have hbranch : Branch.Alike r ⟨f.mouth, inner, Nesting.branchEnd ⟨f :: _, inner⟩ f b⟩
        ⟨f'.mouth, inner', Nesting.branchEnd ⟨f' :: _, inner'⟩ f' b'⟩ :=
      ⟨hf.mouth, h.inner, h.branchEnd hr hf hb (.inr hflag)⟩
    rw [Frame.closedBy, Frame.closedBy, hf.shape]
    exact Node.alike_cBlock hf.opener (List.rel_append hf.branches (.cons hbranch .nil))

/-- So C blocks are `closed` alike that are still open when a script ends. -/
theorem Alike.closed {n n' : Nesting} (h : n.Alike r n') : Script.Alike r n.closed n'.closed := by
  obtain ⟨frames, inner⟩ := n
  obtain ⟨frames', inner'⟩ := n'
  induction frames generalizing inner frames' inner' with
  | nil =>
    cases h.frames
    exact h.inner
  | cons f outer ih =>
    -- the innermost C block is closed first, by the same implied end in both
    have hnext := h.closeWith hr (hr.refl impliedEnd) rfl
    cases h.frames with
    | cons hf houter =>
      rw [closed_step, closed_step]
      exact ih _ _ _ hnext

end Nesting

/-! ## Layouts -/

namespace Layout

/-- A layout is `Alike` itself if its blocks are related to themselves. -/
theorem Alike.refl (hr : ∀ b, r b b) (l : Layout) : l.Alike r l :=
  ⟨List.forall₂_same.2 fun s _ => Script.Alike.refl hr s, Nesting.Alike.refl hr _⟩

/-- Related blocks can be placed in layouts that are `Alike`. -/
theorem Alike.place {l l' : Layout} (h : l.Alike r l') {b b' : Block} (hb : r b b') :
    (l.place b).Alike r (l'.place b') :=
  ⟨h.scripts, h.nesting.place hb⟩

variable (hr : Block.PlacedAlike r)

include hr

/-- Layouts that are `Alike` stay so when a script ends. -/
theorem Alike.newScript {l l' : Layout} (h : l.Alike r l') : l.newScript.Alike r l'.newScript := by
  unfold Layout.newScript
  rw [h.nesting.isEmpty_eq]
  split
  · exact h
  · exact ⟨List.rel_append h.scripts (.cons (h.nesting.closed hr) .nil), .nil, .nil⟩

/-- Layouts stay `Alike` when related blocks get a script to themselves. -/
theorem Alike.placeAlone {l l' : Layout} (h : l.Alike r l') {b b' : Block} (hb : r b b') :
    (l.placeAlone b).Alike r (l'.placeAlone b') :=
  ((h.newScript hr).place hb).newScript hr

/-- Related blocks have the same shape, so `addByShape` does the same with them. -/
theorem Alike.addByShape {l l' : Layout} (h : l.Alike r l') {b b' : Block} (hb : r b b') :
    (l.addByShape b).Alike r (l'.addByShape b') := by
  unfold Layout.addByShape
  rw [hr.shape _ _ hb]
  split
  · exact (h.newScript hr).place hb
  · exact (h.newScript hr).place hb
  · -- a cap block ends the script in both layouts, or in none
    have hplaced := h.place hb
    simp only [hplaced.nesting.isFlat_eq]
    split
    · exact hplaced.newScript hr
    · exact hplaced
  · exact h.placeAlone hr hb
  · exact h.placeAlone hr hb
  · exact h.placeAlone hr hb
  · exact h.place hb

/-- Layouts that are `Alike` stay so when related blocks are added. -/
theorem Alike.add {l l' : Layout} (h : l.Alike r l') {b b' : Block} (hb : r b b') :
    (l.add b).Alike r (l'.add b') := by
  unfold Layout.add
  rw [hr.comment _ _ hb, hr.flag _ _ hb, h.nesting.isFlat_eq]
  -- comments have a script to themselves, and all others go by their flags
  split
  · exact h.placeAlone hr hb
  · split
    · rename_i hflag
      exact ⟨h.scripts, h.nesting.openWith hr hb hflag⟩
    · rename_i hflag
      exact ⟨h.scripts, h.nesting.divideWith hr hb hflag⟩
    · rename_i hflag
      exact ⟨h.scripts, h.nesting.closeWith hr hb hflag⟩
    · exact h.placeAlone hr hb
    · exact h.addByShape hr hb

end Layout

/-! ## Texts -/

/-- `ReadsAlike v r line line'`: both lines are blank, or both give blocks and these are related. -/
def Vocabulary.ReadsAlike (v : Vocabulary) (r : Block → Block → Prop) (line line' : Text) : Prop :=
  (Text.trim line' = [] ↔ Text.trim line = []) ∧
    ∀ b, v.lineBlock line = .ok b → ∃ b', v.lineBlock line' = .ok b' ∧ r b b'

/-- A line `ReadsAlike` itself if blocks are related to themselves. -/
theorem Vocabulary.ReadsAlike.refl {v : Vocabulary} (hr : ∀ b, r b b) (line : Text) :
    v.ReadsAlike r line line :=
  ⟨Iff.rfl, fun b hb => ⟨b, hb, hr b⟩⟩

namespace Workspace

/-- `takeLine` takes lines that read alike to layouts that are `Alike`. -/
theorem takeLine_alike (hr : Block.PlacedAlike r) {line line' : Text} {w w₁ w' : Workspace}
    (h : w.takeLine line = (w₁, none)) (hvocabulary : w'.vocabulary = w.vocabulary)
    (hlines : w.vocabulary.ReadsAlike r line line') (hlayout : w.layout.Alike r w'.layout) :
    ∃ w₁', w'.takeLine line' = (w₁', none) ∧ w₁'.vocabulary = w₁.vocabulary ∧
      w₁.layout.Alike r w₁'.layout := by
  -- a blank line ends the script in both or in neither, as the same C blocks are open
  by_cases hblank : Text.trim line = []
  · rw [takeLine, if_pos hblank] at h
    rw [takeLine, if_pos (hlines.1.2 hblank), hlayout.nesting.isFlat_eq]
    by_cases hflat : w.layout.nesting.isFlat = true
    · rw [if_pos hflat] at h ⊢
      cases h
      exact ⟨_, rfl, hvocabulary, hlayout.newScript hr⟩
    · rw [if_neg hflat] at h ⊢
      cases h
      exact ⟨_, rfl, hvocabulary, hlayout⟩
  · -- a written line adds its block, and the two blocks are related
    obtain ⟨b, hb, rfl⟩ := takeLine_written h hblank
    obtain ⟨b', hb', hrelated⟩ := hlines.2 b hb
    rw [← hvocabulary] at hb'
    refine ⟨_, takeLine_of_lineBlock (mt hlines.1.1 hblank) hb', ?_, ?_⟩
    · exact (readLine_fst w' line').1.trans (hvocabulary.trans (readLine_fst w line).1.symm)
    · rw [place, place, (readLine_fst w line).2.1, (readLine_fst w' line').2.1]
      exact hlayout.add hr hrelated

/-- So does `takeLines`, line by line. -/
theorem takeLines_alike (hr : Block.PlacedAlike r) {lines lines' : List Text} {w w₁ w' : Workspace}
    (h : takeLines lines w = (w₁, none)) (hvocabulary : w'.vocabulary = w.vocabulary)
    (hlines : List.Forall₂ (w.vocabulary.ReadsAlike r) lines lines') (hlayout : w.layout.Alike r w'.layout) :
    ∃ w₁', takeLines lines' w' = (w₁', none) ∧ w₁.layout.Alike r w₁'.layout := by
  -- the two runs go in lockstep, so both states are generalised
  induction lines generalizing w w' lines' with
  | nil =>
    cases hlines
    cases h
    exact ⟨w', rfl, hlayout⟩
  | cons line rest ih =>
    obtain ⟨line', rest', hline, hrest, rfl⟩ := List.forall₂_cons_left_iff.1 hlines
    rw [takeLines] at h
    split at h
    · rename_i w₂ htaken
      obtain ⟨w₂', htaken', hvocabulary₂, hlayout₂⟩ := takeLine_alike hr htaken hvocabulary hline hlayout
      rw [← (takeLine_takes htaken).vocabulary] at hrest
      rw [takeLines, htaken']
      exact ih h hvocabulary₂ hrest hlayout₂
    · simp at h

end Workspace

/-- Texts with lines that read alike have scripts that are `Alike` when `layOut` has laid them out. -/
theorem Vocabulary.layOut_alike (hr : Block.PlacedAlike r) {v : Vocabulary} {text text' : Text} {w : Workspace}
    (h : v.layOut text = .ok w)
    (hlines : List.Forall₂ (v.ReadsAlike r) (Workspace.sourceLines text) (Workspace.sourceLines text')) :
    ∃ w', v.layOut text' = .ok w' ∧ List.Forall₂ (Script.Alike r) w.scripts w'.scripts := by
  obtain ⟨w₁, htaken, rfl⟩ := layOut_eq_ok.1 h
  obtain ⟨w₁', htaken', hlayout⟩ :=
    @Workspace.takeLines_alike _ hr _ _ _ _ (Workspace.new v) htaken rfl hlines (Layout.Alike.refl hr.refl _)
  exact ⟨_, layOut_eq_ok.2 ⟨w₁', htaken', rfl⟩, (hlayout.newScript hr).scripts⟩

end BlockScript
