import BlockScript.Proofs.Reading.Unmarked
import BlockScript.Proofs.Workspace.Closing

/-!
# Below C blocks with the shape of a cap

A cap block ends its script when it is placed. A C block with the shape of one, like a loop without end, does
not do so when it is closed: the next block is placed below it if it neither starts a script nor has one to
itself. A blank line ends the script, and so do hats, headers, reporters and comments.

## Key results

- `Layout.add_capsLast_iff`: when a block can be added so that nothing stands below such a C block
- `Workspace.takeLines_capsLast_iff`: the same for lines, one after the other
- `Vocabulary.parse_capsLast_iff`: and for texts
-/

namespace BlockScript

/-! ## What is asked -/

/-- Whether a node is a C block with the shape of a cap. -/
def Node.isCapWrap : Node → Bool
  | .wrap shape _ => shape == some .cap
  | _ => false

/-- In a script nothing stands below a C block with the shape of a cap. -/
def Script.CapsLast (s : Script) : Prop := ∀ n ∈ s.dropLast, n.isCapWrap = false

/-- Whether a block leaves the script that is being put together, if no C block is open: it starts a script,
    or has one to itself. -/
def Block.Leaves (b : Block) : Prop :=
  b.startsScript = true ∨ b.standsAlone = true ∨ b.isComment = true

namespace Nesting

/-- Whether no C block is open, and the last node is a C block with the shape of a cap. -/
def IsCapped (n : Nesting) : Prop := n.frames = [] ∧ ∃ last, n.inner.getLast? = some last ∧ last.isCapWrap = true

/-- The nodes of the script that stand in front of the last one, which may be a C block that is still open. -/
def settled (n : Nesting) : List Node :=
  match n.frames.getLast? with
  | none => n.inner.dropLast
  | some f => f.before

/-- Whether a nesting `IsCapped` can be computed. -/
private theorem isCapped_iff (n : Nesting) :
    n.IsCapped ↔ (n.isFlat && n.inner.getLast?.any Node.isCapWrap) = true := by
  rw [IsCapped, Bool.and_eq_true, isFlat_iff, Option.any_eq_true]

/-- While a C block is open, the last thing is not a finished one. -/
private theorem not_isCapped_of_frames {n : Nesting} (h : n.frames ≠ []) :
    ¬ n.IsCapped := fun hcapped => h hcapped.1

/-- As long as a C block is open, what is `settled` in front of the outermost one does not change. -/
private theorem settled_cons (f : Frame) (outer : List Frame) (inner : List Node) :
    settled ⟨f :: outer, inner⟩ =
      match outer.getLast? with
      | none => f.before
      | some g => g.before := by
  rw [settled, List.getLast?_cons]
  cases outer.getLast? <;> rfl

/-- Closing a C block changes nothing of it either: the C block is the last node then. -/
private theorem settled_closeWith (b : Block) (f : Frame) (outer : List Frame) (inner : List Node) :
    (closeWith b ⟨f :: outer, inner⟩).settled = settled ⟨f :: outer, inner⟩ := by
  rw [settled_cons]
  simp only [closeWith, settled, List.dropLast_concat]

/-- What is `settled` are the nodes of the finished script without the last one. -/
private theorem dropLast_closed (n : Nesting) : n.closed.dropLast = n.settled := by
  refine (closed_induction (motive := fun m => m.settled = n.settled) n rfl fun f outer inner ih => ?_)
  rw [settled_closeWith, ih]

end Nesting

namespace Layout

/-- In a layout nothing stands below a C block with the shape of a cap. -/
structure CapsLast (l : Layout) : Prop where
  scripts : ∀ s ∈ l.scripts, s.CapsLast
  settled : ∀ n ∈ l.nesting.settled, n.isCapWrap = false

/-! ## Moves -/

/-- `newScript` moves the old script to the finished ones, and puts nothing below anything. -/
theorem newScript_capsLast_iff (l : Layout) : l.newScript.CapsLast ↔ l.CapsLast := by
  unfold newScript
  split
  · rfl
  · constructor
    · rintro ⟨hscripts, -⟩
      rw [List.forall_mem_append, List.forall_mem_singleton, Script.CapsLast, Nesting.dropLast_closed] at hscripts
      exact ⟨hscripts.1, hscripts.2⟩
    · -- the new script has nothing in it yet
      rintro ⟨hscripts, hsettled⟩
      refine ⟨?_, by simp [Nesting.settled]⟩
      rw [List.forall_mem_append, List.forall_mem_singleton, Script.CapsLast, Nesting.dropLast_closed]
      exact ⟨hscripts, hsettled⟩

/-- What goes on with the script stands below what has been placed, unless it is in a C block. -/
private theorem nest_capsLast_iff (l : Layout) (g : Nesting → Nesting)
    (hg : (g l.nesting).settled = if l.nesting.frames = [] then l.nesting.inner else l.nesting.settled) :
    (l.nest g).CapsLast ↔ l.CapsLast ∧ ¬ l.nesting.IsCapped := by
  have hnest : (l.nest g).CapsLast ↔
      (∀ s ∈ l.scripts, s.CapsLast) ∧ ∀ n ∈ (g l.nesting).settled, n.isCapWrap = false :=
    ⟨fun h => ⟨h.scripts, h.settled⟩, fun h => ⟨h.1, h.2⟩⟩
  have hself : l.CapsLast ↔
      (∀ s ∈ l.scripts, s.CapsLast) ∧ ∀ n ∈ l.nesting.settled, n.isCapWrap = false :=
    ⟨fun h => ⟨h.scripts, h.settled⟩, fun h => ⟨h.1, h.2⟩⟩
  rw [hnest, hself, hg, and_assoc]
  refine and_congr_right fun _ => ?_
  split
  · rename_i hflat
    -- the last node now stands in front of another one
    have hsettled : l.nesting.settled = l.nesting.inner.dropLast := by rw [Nesting.settled, hflat]; rfl
    rw [hsettled]
    -- if there is one, it must not be capped
    rcases List.eq_nil_or_concat' l.nesting.inner with hinner | ⟨front, last, hinner⟩
    · simp [hinner, Nesting.IsCapped]
    · simp [hinner, Nesting.IsCapped, hflat, or_imp, forall_and]
  · -- inside a C block it stands below nothing that is finished
    rename_i hopen
    simp [Nesting.not_isCapped_of_frames hopen]

/-- A block that is placed by `place` stands below what is there. -/
theorem place_capsLast_iff (l : Layout) (b : Block) :
    (l.place b).CapsLast ↔ l.CapsLast ∧ ¬ l.nesting.IsCapped := by
  refine nest_capsLast_iff l _ ?_
  obtain ⟨scripts, ⟨frames, inner⟩⟩ := l
  cases frames with
  | nil => simp [Nesting.settled, Nesting.place]
  | cons f outer => simp [Nesting.settled_cons, Nesting.place]

/-- So does one that opens a C block by `openWith`. -/
theorem openWith_capsLast_iff (l : Layout) (b : Block) :
    (l.nest (Nesting.openWith b)).CapsLast ↔ l.CapsLast ∧ ¬ l.nesting.IsCapped := by
  refine nest_capsLast_iff l _ ?_
  obtain ⟨scripts, ⟨frames, inner⟩⟩ := l
  cases frames with
  | nil => simp [Nesting.settled, Nesting.openWith]
  | cons f outer => simp [Nesting.settled, Nesting.openWith, List.getLast?_cons]

/-- In a C block there is nothing capped outside, so `divideWith` asks for nothing. -/
theorem divideWith_capsLast_iff (l : Layout) (b : Block) :
    (l.nest (Nesting.divideWith b)).CapsLast ↔ l.CapsLast ∧ ¬ l.nesting.IsCapped := by
  refine nest_capsLast_iff l _ ?_
  obtain ⟨scripts, ⟨frames, inner⟩⟩ := l
  cases frames with
  | nil => simp [Nesting.settled, Nesting.divideWith, Nesting.place]
  | cons f outer => simp [Nesting.settled_cons, Nesting.divideWith]

/-- Neither does `closeWith`. Outside of C blocks both are placed like other blocks. -/
theorem closeWith_capsLast_iff (l : Layout) (b : Block) :
    (l.nest (Nesting.closeWith b)).CapsLast ↔ l.CapsLast ∧ ¬ l.nesting.IsCapped := by
  refine nest_capsLast_iff l _ ?_
  obtain ⟨scripts, ⟨frames, inner⟩⟩ := l
  cases frames with
  | nil => simp [Nesting.settled, Nesting.closeWith, Nesting.place]
  | cons f outer => simp [Nesting.settled_closeWith]

/-- A block that starts a script stands below nothing. -/
private theorem newScript_place_capsLast_iff (l : Layout) (b : Block) :
    (l.newScript.place b).CapsLast ↔ l.CapsLast := by
  rw [place_capsLast_iff, newScript_capsLast_iff, newScript_nesting]
  simp [Nesting.IsCapped]

/-- By `placeAlone` a block is put below nothing. -/
theorem placeAlone_capsLast_iff (l : Layout) (b : Block) : (l.placeAlone b).CapsLast ↔ l.CapsLast := by
  rw [placeAlone, newScript_capsLast_iff, newScript_place_capsLast_iff]

/-- A block without a flag is placed by its shape, below what is there unless it `Leaves`. -/
private theorem addByShape_capsLast_iff {b : Block} (hflag : b.attrs.flag = none) {l : Layout}
    (hcomment : l.nesting.IsCapped → b.isComment = false) :
    (l.addByShape b).CapsLast ↔ l.CapsLast ∧ (l.nesting.IsCapped → b.Leaves) := by
  -- a block that neither starts a script nor stands alone goes below what is there
  have hstays : b.startsScript = false → b.standsAlone = false →
      ((l.CapsLast ∧ ¬ l.nesting.IsCapped) ↔ l.CapsLast ∧ (l.nesting.IsCapped → b.Leaves)) := by
    intro hstart halone
    refine and_congr_right fun _ => imp_congr_right fun hcapped => ?_
    simp [Block.Leaves, hstart, halone, hcomment hcapped]
  unfold addByShape
  split
  · -- a hat starts a script
    rename_i hshape
    rw [newScript_place_capsLast_iff]
    simp [Block.Leaves, Block.startsScript, hflag, hshape]
  · -- so does a header
    rename_i hshape
    rw [newScript_place_capsLast_iff]
    simp [Block.Leaves, Block.startsScript, hflag, hshape]
  · -- a cap block ends the script, but below what is there
    rename_i hshape
    rw [← hstays (by simp [Block.startsScript, hshape]) (by simp [Block.standsAlone, hshape, hflag]),
      ← place_capsLast_iff l b]
    dsimp only
    split
    · exact newScript_capsLast_iff _
    · rfl
  · -- a reporter has a script to itself
    rename_i hshape
    rw [placeAlone_capsLast_iff]
    simp [Block.Leaves, Block.standsAlone, hflag, hshape]
  · -- so has a boolean block
    rename_i hshape
    rw [placeAlone_capsLast_iff]
    simp [Block.Leaves, Block.standsAlone, hflag, hshape]
  · -- and an embedded one
    rename_i hshape
    rw [placeAlone_capsLast_iff]
    simp [Block.Leaves, Block.standsAlone, hflag, hshape]
  · -- any other shape
    rename_i hhat hdefine _ hreporter hboolean hembedded
    rw [place_capsLast_iff, hstays]
    · simpa [Block.startsScript] using fun _ => ⟨hhat, hdefine⟩
    · simpa [Block.standsAlone, hflag] using ⟨⟨hreporter, hboolean⟩, hembedded⟩

/-- A block can be added so that nothing stands below a C block with the shape of a cap, just if the layout is
    like that before, and the block `Leaves` the script if such a C block is the last thing in it. -/
theorem add_capsLast_iff {b : Block} (hflag : ∀ flag, b.attrs.flag = some flag → flag ∈ Flag.standard)
    (l : Layout) : (l.add b).CapsLast ↔ l.CapsLast ∧ (l.nesting.IsCapped → b.Leaves) := by
  unfold add
  split
  · -- a comment outside of C blocks stands alone
    rename_i hcomment
    rw [Bool.and_eq_true] at hcomment
    rw [placeAlone_capsLast_iff]
    simp [Block.Leaves, hcomment.1]
  · rename_i hnot
    -- a comment outside of C blocks has been dealt with, and what is capped is outside
    have hcomment : l.nesting.IsCapped → b.isComment = false := by
      intro hcapped
      simpa [Nesting.isFlat, hcapped.1] using hnot
    -- what opens, divides or closes a C block goes below what is there
    have hstays : ∀ f, b.attrs.flag = some f → f ≠ .ring →
        ((l.CapsLast ∧ ¬ l.nesting.IsCapped) ↔ l.CapsLast ∧ (l.nesting.IsCapped → b.Leaves)) := by
      intro f hf hring
      have hordinary := Block.ordinary_of_flag hf hring
      refine and_congr_right fun _ => imp_congr_right fun hcapped => ?_
      simp [Block.Leaves, hordinary.start, hordinary.alone, hcomment hcapped]
    split
    · -- what opens a C block
      rename_i hf
      rw [openWith_capsLast_iff, hstays _ hf (by decide)]
    · -- what ends a branch
      rename_i hf
      rw [divideWith_capsLast_iff, hstays _ hf (by decide)]
    · -- what ends a C block
      rename_i hf
      rw [closeWith_capsLast_iff, hstays _ hf (by decide)]
    · -- a block with a ring stands alone
      rename_i hf
      rw [placeAlone_capsLast_iff]
      simp [Block.Leaves, Block.standsAlone, hf]
    · rename_i hstart helse hend hring
      refine addByShape_capsLast_iff ?_ hcomment
      -- no other flag has a meaning
      cases hf : b.attrs.flag with
      | none => rfl
      | some f =>
        have hstandard := hflag f hf
        simp only [Flag.standard, List.mem_cons, List.not_mem_nil, or_false] at hstandard
        rcases hstandard with rfl | rfl | rfl | rfl
        · exact absurd hf hstart
        · exact absurd hf helse
        · exact absurd hf hend
        · exact absurd hf hring

end Layout

/-! ## Lines -/

namespace Workspace

variable {w w' : Workspace}

/-- A blank line stands below nothing. A written one does unless its block `Leaves` the script. -/
theorem takeLine_capsLast_iff {line : Text} (h : w.takeLine line = (w', none)) :
    w'.layout.CapsLast ↔ w.layout.CapsLast ∧
      (Text.trim line ≠ [] → w.layout.nesting.IsCapped →
        ∀ b, w.vocabulary.lineBlock line = .ok b → b.Leaves) := by
  -- a blank line starts a new script or does nothing, and neither puts a block anywhere
  by_cases hblank : Text.trim line = []
  · rw [takeLine, if_pos hblank] at h
    simp only [hblank, ne_eq, not_true_eq_false, false_imp_iff, and_true]
    split at h
    · cases h
      exact Layout.newScript_capsLast_iff _
    · cases h
      rfl
  · -- a written line adds its block, which has a flag with a meaning or none
    obtain ⟨b, hblock, rfl⟩ := takeLine_written h hblank
    have hflag : ∀ flag, b.attrs.flag = some flag → flag ∈ Flag.standard :=
      ((Block.isUnmarked_iff b).1 (Vocabulary.lineBlock_isUnmarked hblock)).1.flag
    have hlayout : ((w.readLine line).1.place b).layout = w.layout.add b := by
      rw [place, (readLine_fst w line).2.1]
    rw [hlayout, Layout.add_capsLast_iff hflag]
    refine and_congr_right fun _ => ?_
    simp [hblank, hblock]

/-- After `takeLines` there is `CapsLast`, nothing below a C block with the shape of a cap, just if each of
    the lines `Leaves` the script that comes when such a C block is the last thing in it. -/
theorem takeLines_capsLast_iff {lines : List Text} (h : takeLines lines w = (w', none)) :
    w'.layout.CapsLast ↔ w.layout.CapsLast ∧
      ∀ front line back, lines = front ++ line :: back → Text.trim line ≠ [] →
        (takeLines front w).1.layout.nesting.IsCapped →
          ∀ b, w.vocabulary.lineBlock line = .ok b → b.Leaves := by
  induction lines generalizing w with
  | nil =>
    cases h
    simp
  | cons line rest ih =>
    rw [takeLines] at h
    cases htaken : w.takeLine line with
    | mk w₁ fault =>
      rw [htaken] at h
      cases fault with
      | some f => simp at h
      | none =>
        have hvocabulary : w₁.vocabulary = w.vocabulary := (takeLine_takes htaken).vocabulary
        have hfirst : ∀ front, takeLines (line :: front) w =
            takeLines front { w₁ with line := w₁.line + 1 } := by
          intro front
          rw [takeLines, htaken]
        rw [hvocabulary] at hfirst
        -- the first line is judged in the present state, the others in the one that it leads to
        rw [ih h, takeLine_capsLast_iff htaken, hvocabulary, and_assoc]
        refine and_congr_right fun _ => ?_
        constructor
        · rintro ⟨hline, hrest⟩ front line' back heq
          cases front with
          | nil =>
            obtain ⟨rfl, rfl⟩ := List.cons.inj heq
            exact hline
          | cons line₀ front =>
            obtain ⟨rfl, hback⟩ := List.cons.inj heq
            rw [hfirst]
            exact hrest front line' back hback
        · intro hall
          refine ⟨hall [] line rest rfl, fun front line' back heq => ?_⟩
          have hlater := hall (line :: front) line' back (by rw [heq, List.cons_append])
          rwa [hfirst] at hlater

end Workspace

/-! ## Texts -/

/-- Resolution keeps the shapes of C blocks. -/
private theorem Node.isCapWrap_mapAttrs (f : Attrs → Attrs) (n : Node) :
    (n.mapAttrs f).isCapWrap = n.isCapWrap := by
  cases n with
  | block b => simp [isCapWrap]
  | wrap shape inner => simp [isCapWrap]
  | mouth c inner => simp [isCapWrap]

/-- A change of attributes plays no part in whether a script is `CapsLast`. -/
private theorem Script.capsLast_mapAttrs (f : Attrs → Attrs) (s : Script) :
    (s.mapAttrs f).CapsLast ↔ s.CapsLast := by
  simp only [CapsLast, mapAttrs, ← List.map_dropLast, List.forall_mem_map, Node.isCapWrap_mapAttrs]

namespace Vocabulary

/-- What is being put together when some lines of a text have been taken. -/
def nestingAfter (v : Vocabulary) (lines : List Text) : Nesting :=
  (Workspace.takeLines lines (Workspace.new v)).1.layout.nesting

/-- In the scripts that `parse` gives nothing stands below an `isCapWrap`, just if no line of the text is
    placed there: each written line that comes when the nesting `IsCapped`, as such a C block has been closed
    and is the last thing in the script, gives a block that `startsScript`, `standsAlone` or is a comment. -/
theorem parse_capsLast_iff {v : Vocabulary} {text : Text} {w : Workspace} (h : v.parse text = .ok w) :
    (∀ s ∈ w.scripts, ∀ n ∈ s.dropLast, n.isCapWrap = false) ↔
      ∀ front line back, Workspace.sourceLines text = front ++ line :: back → Text.trim line ≠ [] →
        (v.nestingAfter front).IsCapped →
          ∀ b, v.lineBlock line = .ok b →
            b.startsScript = true ∨ b.standsAlone = true ∨ b.isComment = true := by
  obtain ⟨w₀, hlayOut, rfl⟩ := parse_ok h
  obtain ⟨w₁, htaken, rfl⟩ := layOut_eq_ok.1 hlayOut
  have hresolved : ∀ w : Workspace, (∀ s ∈ w.resolve.scripts, s.CapsLast) ↔ ∀ s ∈ w.scripts, s.CapsLast := by
    intro w
    simp only [Workspace.scripts_resolve, List.forall_mem_map, Script.capsLast_mapAttrs]
  -- when all lines have been taken nothing is open, so the layout is its scripts
  have hscripts : (∀ s ∈ w₁.layout.newScript.scripts, s.CapsLast) ↔ w₁.layout.newScript.CapsLast := by
    refine ⟨fun hall => ⟨hall, ?_⟩, fun hall => hall.scripts⟩
    rw [Layout.newScript_nesting]
    simp [Nesting.settled]
  have hlines := Workspace.takeLines_capsLast_iff htaken
  -- before the first line there is nothing at all
  have hstart : (Workspace.new v).layout.CapsLast := ⟨by simp [Workspace.new], by simp [Workspace.new, Nesting.settled]⟩
  rw [← Layout.newScript_capsLast_iff, ← hscripts] at hlines
  refine (hresolved _).trans (hlines.trans ?_)
  exact and_iff_right hstart

/-- A block on the line behind the end of such a C block is placed below it. -/
theorem parse_capsLast_fails_below_end :
    ∃ w, (Vocabulary.empty true).parse "a :: cstart cap\nb :: cend\nc".toList = .ok w ∧
      ¬ ∀ s ∈ w.scripts, ∀ n ∈ s.dropLast, n.isCapWrap = false := by
  obtain ⟨w, hw⟩ : ∃ w, (Vocabulary.empty true).parse "a :: cstart cap\nb :: cend\nc".toList = .ok w :=
    exists_eq_ok_of_isOk (by decide +kernel)
  obtain ⟨b, hb⟩ : ∃ b, (Vocabulary.empty true).lineBlock "c".toList = .ok b :=
    exists_eq_ok_of_isOk (by decide +kernel)
  have hstays : ((Vocabulary.empty true).lineBlock "c".toList).map
      (fun b => b.startsScript || b.standsAlone || b.isComment) = .ok false := by decide +kernel
  rw [hb] at hstays
  refine ⟨w, hw, fun hlast => ?_⟩
  -- by the iff the third line would have to leave, and its block does not
  have hleaves := (parse_capsLast_iff hw).1 hlast ["a :: cstart cap".toList, "b :: cend".toList] "c".toList []
    (by decide) (by decide) ((Nesting.isCapped_iff _).2 (by decide +kernel)) b hb
  simp only [Except.map, Except.ok.injEq, Bool.or_eq_false_iff] at hstays
  simp [hstays.1.1, hstays.1.2, hstays.2] at hleaves

/-- In English, too: of two loops without end that stand one below the other, both are in one script. -/
theorem loop_stands_below_loop :
    ∃ w, (english true).parse "forever\nend\nforever".toList = .ok w ∧
      ¬ ∀ s ∈ w.scripts, ∀ n ∈ s.dropLast, n.isCapWrap = false := by
  have hgroup : (Category.control, controlEntries) ∈ palette := by simp [palette]
  have he : Entry.openingCap "forever" ∈ controlEntries := by simp [controlEntries]
  obtain ⟨b, hread, hdescribes, -⟩ := @readLine_spec_of_noSlots true _ _ hgroup he (by decide) (by decide)
  have hline : Text.weave (Text.runsOf (Entry.openingCap "forever").spec) [] = "forever".toList := by decide
  rw [hline] at hread
  have hblock := lineBlock_of_readLine hread
  have hflag : b.attrs.flag = some .cStart := hdescribes.flag
  have hshape : b.attrs.shape = some .cap := hdescribes.shape (by decide)
  have hcomment : b.isComment = false := by
    rw [Block.isComment, hdescribes.id]
    decide
  -- the word for the end closes it again
  have hend : (english true).lineBlock "end".toList = .ok writtenEnd :=
    lineBlock_of_readLine (congrArg Outcome.result (english_readLine_end true))
  have hlines : List.Forall₂ (fun line b => Text.trim line ≠ [] ∧ (english true).lineBlock line = .ok b)
      (Workspace.sourceLines "forever\nend\nforever".toList) [b, writtenEnd, b] := by
    have hsource : Workspace.sourceLines "forever\nend\nforever".toList =
        ["forever".toList, "end".toList, "forever".toList] := by decide
    rw [hsource]
    exact .cons ⟨by decide, hblock⟩ (.cons ⟨by decide, hend⟩ (.cons ⟨by decide, hblock⟩ .nil))
  obtain ⟨w, session, hparse, hscripts⟩ := parse_of_blocks hlines
  -- the three blocks make one script, of which the first loop is not the last node
  obtain ⟨contents, later, hadded⟩ : ∃ contents later,
      ([b, writtenEnd, b].foldl (fun l b => l.add b) ({} : Layout)).newScript.scripts =
        [[.wrap (some .cap) contents, later]] := by
    have hopens : ∀ l : Layout, l.add b = l.nest (Nesting.openWith b) := by
      intro l
      rw [Layout.add, hcomment, hflag]
      rfl
    have hcloses : ∀ l : Layout, l.add writtenEnd = l.nest (Nesting.closeWith writtenEnd) := fun l => rfl
    simp only [List.foldl_cons, List.foldl_nil, hopens, hcloses]
    rw [← hshape]
    exact ⟨_, _, rfl⟩
  refine ⟨w, hparse, fun hlast => ?_⟩
  have hscript : Script.mapAttrs session.resolved [.wrap (some .cap) contents, later] ∈ w.scripts := by
    rw [hscripts, hadded]
    exact List.mem_cons_self
  have hcaps : Script.CapsLast [.wrap (some .cap) contents, later] :=
    (Script.capsLast_mapAttrs _ _).1 (hlast _ hscript)
  have hloop := hcaps (.wrap (some .cap) contents) (by simp)
  simp [Node.isCapWrap] at hloop

end Vocabulary

end BlockScript
