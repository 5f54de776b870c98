import Mathlib.Data.List.Forall2
import BlockScript.Proofs.Reading.Line
import BlockScript.Proofs.Workspace.Trace
import BlockScript.Workspace.Basic

/-!
# Laying out the lines of a text

A text is laid out before anything is resolved. Each of its written lines gives one block, whatever has
been read before, and the layout is a run of moves that adds these blocks in order. What is sighted is
what the lines sight, one after the other.

## Key results

- `Vocabulary.parse_eq`: a text is parsed by laying it out and resolving what can be resolved
- `Vocabulary.layOut_ok`: the layout of a text is a run that adds the blocks of its written lines
- `Vocabulary.lineBlock_written`: a block that a line gives can be told from an implied end
-/

namespace BlockScript

/-! ## The block of a line -/

/-- The block that a line gives, read by itself. -/
def Vocabulary.lineBlock (v : Vocabulary) (line : Text) : Except Fault Block :=
  ((Workspace.new v).readLine line).2

namespace Workspace

/-- What has been read before plays no part in the block of a line. -/
private theorem readLine_snd (w : Workspace) (line : Text) :
    (w.readLine line).2 = w.vocabulary.lineBlock line := by
  simp only [readLine, Vocabulary.lineBlock, new]
  split <;> rfl

/-- `readLine` adds what is sighted in a line to the session, and changes neither vocabulary nor layout. -/
theorem readLine_fst (w : Workspace) (line : Text) :
    (w.readLine line).1.vocabulary = w.vocabulary ∧ (w.readLine line).1.layout = w.layout ∧
      (w.readLine line).1.session.sightings =
        w.session.sightings ++ (w.vocabulary.readLine line).sightings := by
  simp only [readLine]
  split <;> exact ⟨rfl, rfl, rfl⟩

end Workspace

namespace Vocabulary

/-- `lineBlock` is the block that is read, or if the line is nested too deeply an unknown one. -/
theorem lineBlock_ok {v : Vocabulary} {line : Text} {b : Block} (h : v.lineBlock line = .ok b) :
    (v.readLine line).result = .ok b ∨
      (v.readLine line).result = .error .tooDeep ∧ b = Workspace.unread line := by
  simp only [lineBlock, Workspace.readLine, Workspace.new] at h
  split at h
  · rename_i hresult
    cases h
    exact .inl hresult
  · rename_i hresult
    cases h
    exact .inr ⟨hresult, rfl⟩
  · cases h

/-- What `readLine` can read is the `lineBlock`. -/
theorem lineBlock_of_readLine {v : Vocabulary} {line : Text} {b : Block}
    (h : (v.readLine line).result = .ok b) : v.lineBlock line = .ok b := by
  simp only [lineBlock, Workspace.readLine, Workspace.new, h]

/-- Blanks at the ends of a line play no part in its `lineBlock`. -/
theorem lineBlock_trim (v : Vocabulary) (line : Text) :
    v.lineBlock (Text.trim line) = v.lineBlock line := by
  simp only [lineBlock, Workspace.readLine, Workspace.new, readLine_trim, Workspace.unread,
    Text.trim_trim]

/-- A block that `lineBlock` gives is `Written`: it can be told from an implied end, and opens nothing if it
    is a comment. -/
theorem lineBlock_written {v : Vocabulary} {line : Text} {b : Block}
    (h : v.lineBlock line = .ok b) : b.Written := by
  obtain hread | ⟨-, rfl⟩ := lineBlock_ok h
  · obtain ⟨hlang, hcomment⟩ := readLine_ok hread
    exact ⟨fun hflag => hlang (by simp [hflag]), hcomment⟩
  · exact ⟨fun hflag => by simp [Workspace.unread] at hflag, fun _ => rfl⟩

/-- A block that `lineBlock` gives and that is named like a comment is one. -/
theorem lineBlock_isComment {v : Vocabulary} {line : Text} {b : Block}
    (h : v.lineBlock line = .ok b) (hb : b.isComment = true) :
    ∃ comment, b = Block.comment comment := by
  obtain hread | ⟨hread, rfl⟩ := lineBlock_ok h
  · exact readLine_isComment hread hb
  · -- two slashes alone are a comment, so they are not nested too deeply
    have hline : Text.trim line = "//".toList := by simpa [Workspace.unread, Block.isComment] using hb
    rw [← readLine_trim, hline] at hread
    cases hread

end Vocabulary

/-! ## Lines one after the other -/

namespace Workspace

open Layout (Move)

/-- What a workspace becomes when lines are taken: the blocks of the written ones are added in order. -/
structure Takes (lines : List Text) (w w' : Workspace) : Prop where
  vocabulary : w'.vocabulary = w.vocabulary
  sightings : w'.session.sightings = w.session.sightings ++
    ((lines.map Text.trim).filter (· ≠ [])).flatMap fun line =>
      (w.vocabulary.readLine line).sightings
  layout : ∃ moves : List Move, w'.layout = moves.foldl Layout.step w.layout ∧
    List.Forall₂ (fun line b => w.vocabulary.lineBlock line = .ok b)
      ((lines.map Text.trim).filter (· ≠ [])) (Layout.added moves)

/-- A line that is not blank is read by `takeLine`, and its block is laid out. -/
theorem takeLine_written {line : Text} {w w' : Workspace} (h : w.takeLine line = (w', none))
    (hwritten : Text.trim line ≠ []) :
    ∃ b, w.vocabulary.lineBlock line = .ok b ∧ w' = (w.readLine line).1.place b := by
  have hblock := readLine_snd w line
  rw [takeLine, if_neg hwritten, addLine] at h
  cases hread : w.readLine line with
  | mk w₁ result =>
    rw [hread] at h hblock
    cases result with
    -- with a fault the line would not have been taken
    | error f => simp at h
    | ok b =>
      cases h
      exact ⟨b, hblock.symm, rfl⟩

/-- `takeLine` adds the block of a line, or none if the line is blank. -/
theorem takeLine_takes {line : Text} {w w' : Workspace} (h : w.takeLine line = (w', none)) :
    Takes [line] w w' := by
  by_cases hblank : Text.trim line = []
  · -- a blank line adds no block, whether it ends the script or not
    rw [takeLine, if_pos hblank] at h
    split at h
    · cases h
      exact ⟨rfl, by simp [newScript, hblank], [.newScript], rfl,
        by simp [hblank, Layout.added, Move.block?]⟩
    · cases h
      exact ⟨rfl, by simp [hblank], [], rfl, by simp [hblank, Layout.added]⟩
  · obtain ⟨hvocabulary, hlayout, hsightings⟩ := readLine_fst w line
    obtain ⟨b, hblock, rfl⟩ := takeLine_written h hblank
    refine ⟨hvocabulary, ?_, [.add b], ?_, ?_⟩
    · -- it sights what the line sights
      simpa [place, hblank, Vocabulary.readLine_trim] using hsightings
    · -- it makes one move
      simp [place, Layout.step, hlayout]
    · -- and the move adds its block
      simpa [hblank, Layout.added, Move.block?, Vocabulary.lineBlock_trim] using hblock

/-- First some lines by `Takes` and then others: their blocks are added one after the other. -/
theorem Takes.trans {lines lines' : List Text} {w w' w'' : Workspace} (h : Takes lines w w')
    (h' : Takes lines' w' w'') : Takes (lines ++ lines') w w'' := by
  obtain ⟨moves, hlayout, hblocks⟩ := h.layout
  obtain ⟨moves', hlayout', hblocks'⟩ := h'.layout
  have hvocabulary := h.vocabulary
  refine ⟨h'.vocabulary.trans hvocabulary, ?_, moves ++ moves', ?_, ?_⟩
  · simp only [h'.sightings, h.sightings, hvocabulary, List.map_append, List.filter_append,
      List.flatMap_append, List.append_assoc]
  · rw [hlayout', hlayout, List.foldl_append]
  · rw [hvocabulary] at hblocks'
    simp only [List.map_append, List.filter_append, Layout.added, List.filterMap_append]
    exact List.rel_append hblocks hblocks'

/-- Lines that `takeLines` can take are taken one after the other. -/
theorem takeLines_takes {lines : List Text} {w w' : Workspace}
    (h : takeLines lines w = (w', none)) : Takes lines w w' := by
  induction lines generalizing w with
  | nil =>
    cases h
    exact ⟨rfl, by simp, [], rfl, .nil⟩
  | cons line rest ih =>
    rw [takeLines] at h
    -- a fault at some line would be the fault of all
    split at h
    · rename_i w₁ hline
      have htakes := takeLine_takes hline
      -- the number of the line has nothing to do with what is taken
      have hnumbered : Takes [line] w { w₁ with line := w₁.line + 1 } :=
        ⟨htakes.vocabulary, htakes.sightings, htakes.layout⟩
      exact hnumbered.trans (ih h)
    · simp at h

end Workspace

namespace Workspace

/-- A written line that gives a block is taken, and `place` lays its block out. -/
theorem takeLine_of_lineBlock {line : Text} {b : Block} {w : Workspace} (hwritten : Text.trim line ≠ [])
    (h : w.vocabulary.lineBlock line = .ok b) : w.takeLine line = ((w.readLine line).1.place b, none) := by
  have hread : w.readLine line = ((w.readLine line).1, .ok b) := by
    rw [← h, ← readLine_snd]
  rw [takeLine, if_neg hwritten, addLine, hread]

/-- Lines can be taken if `lineBlock` gives a block for each written one, whatever has been read before. -/
theorem takeLines_isOk {lines : List Text} {w : Workspace}
    (h : ∀ line ∈ (lines.map Text.trim).filter (· ≠ []), ∃ b, w.vocabulary.lineBlock line = .ok b) :
    ∃ w', takeLines lines w = (w', none) := by
  induction lines generalizing w with
  | nil => exact ⟨w, rfl⟩
  | cons line rest ih =>
    obtain ⟨w₁, hline⟩ : ∃ w₁, w.takeLine line = (w₁, none) := by
      by_cases hwritten : Text.trim line = []
      · rw [takeLine, if_pos hwritten]
        exact ⟨_, rfl⟩
      · obtain ⟨b, hb⟩ := h (Text.trim line) (by simp [hwritten])
        rw [Vocabulary.lineBlock_trim] at hb
        exact ⟨_, takeLine_of_lineBlock hwritten hb⟩
    -- what is taken does not change the vocabulary, so the other lines give their blocks, too
    have hvocabulary := (takeLine_takes hline).vocabulary
    rw [takeLines, hline]
    refine ih fun line' hline' => ?_
    dsimp only
    rw [hvocabulary]
    refine h line' ?_
    rw [List.map_cons, List.filter_cons]
    split
    · exact List.mem_cons_of_mem _ hline'
    · exact hline'

/-- `takeLines` adds the blocks of lines that are all written one after the other. -/
theorem takeLines_of_blocks {lines : List Text} {bs : List Block} {w : Workspace}
    (h : List.Forall₂ (fun line b => Text.trim line ≠ [] ∧ w.vocabulary.lineBlock line = .ok b) lines bs) :
    ∃ w', takeLines lines w = (w', none) ∧ w'.layout = bs.foldl (fun l b => l.add b) w.layout := by
  induction lines generalizing w bs with
  | nil =>
    cases h
    exact ⟨w, rfl, rfl⟩
  | cons line rest ih =>
    cases h with
    | @cons _ b _ bs hline hrest =>
      obtain ⟨hvocabulary, hlayout, -⟩ := readLine_fst w line
      rw [← hvocabulary] at hrest
      -- reading the line has left the layout and the vocabulary as they were
      obtain ⟨w', hw', hblocks⟩ := @ih _ { (w.readLine line).1.place b with line := _ } hrest
      refine ⟨w', by rw [takeLines, takeLine_of_lineBlock hline.1 hline.2]; exact hw', ?_⟩
      rw [hblocks, List.foldl_cons, ← hlayout]
      rfl

end Workspace

/-! ## Texts -/

/-- A result with `isOk` can be named. -/
theorem exists_eq_ok_of_isOk {ε α : Type} {r : Except ε α} (h : r.isOk = true) :
    ∃ a, r = .ok a := by
  cases r with
  | error e => cases h
  | ok a => exact ⟨a, rfl⟩

namespace Vocabulary

/-- A text laid out in scripts, with nothing resolved yet. -/
def layOut (v : Vocabulary) (text : Text) : Except Fault Workspace :=
  let lines := Workspace.sourceLines text
  match Workspace.takeLines lines { Workspace.new v with source := lines, line := 1 } with
  | (w, none) => .ok w.newScript
  | (_, some f) => .error f

/-- `parse` lays a text out and resolves what can be resolved. -/
theorem parse_eq (v : Vocabulary) (text : Text) :
    v.parse text = (v.layOut text).map Workspace.resolve := by
  simp only [parse, layOut, Workspace.readText]
  generalize Workspace.takeLines (Workspace.sourceLines text)
    { Workspace.new v with source := Workspace.sourceLines text, line := 1 } = taken
  obtain ⟨w, _ | f⟩ := taken <;> rfl

/-- So a text that `parse` accepts is one for `layOut`. -/
theorem parse_ok {v : Vocabulary} {text : Text} {w : Workspace} (h : v.parse text = .ok w) :
    ∃ w₀, v.layOut text = .ok w₀ ∧ w = w₀.resolve := by
  rw [parse_eq] at h
  cases hlayOut : v.layOut text with
  | error f => simp [hlayOut, Except.map] at h
  | ok w₀ =>
    simp only [hlayOut, Except.map, Except.ok.injEq] at h
    exact ⟨w₀, rfl, h.symm⟩

/-- `parse` accepts a text if each of its `writtenLines` gives a block. -/
theorem exists_parse {v : Vocabulary} {text : Text}
    (h : ∀ line ∈ Text.writtenLines text, ∃ b, v.lineBlock line = .ok b) :
    ∃ w, v.parse text = .ok w := by
  have hlines : ((Workspace.sourceLines text).map Text.trim).filter (· ≠ []) =
      Text.writtenLines text := Text.writtenLines_trim text
  rw [← hlines] at h
  obtain ⟨w, hw⟩ := Workspace.takeLines_isOk
    (w := { Workspace.new v with source := Workspace.sourceLines text, line := 1 }) h
  refine ⟨w.newScript.resolve, ?_⟩
  simp only [parse_eq, layOut, hw, Except.map]

open Layout (Move) in
/-- A text that is laid out is a run of moves that adds the blocks of its `writtenLines` in order, and nothing
    is left open. -/
theorem layOut_ok {v : Vocabulary} {text : Text} {w : Workspace} (h : v.layOut text = .ok w) :
    w.vocabulary = v ∧
      w.session.sightings =
        (Text.writtenLines text).flatMap (fun line => (v.readLine line).sightings) ∧
      w.layout.nesting = {} ∧
      ∃ moves : List Move, w.layout = Layout.run moves ∧
        List.Forall₂ (fun line b => v.lineBlock line = .ok b) (Text.writtenLines text)
          (Layout.added moves) := by
  -- the text is trimmed before it is cut, which does not change its written lines
  have hlines : ((Workspace.sourceLines text).map Text.trim).filter (· ≠ []) =
      Text.writtenLines text := Text.writtenLines_trim text
  unfold layOut at h
  dsimp only at h
  split at h
  · rename_i w₁ htaken
    cases h
    have htakes := Workspace.takeLines_takes htaken
    obtain ⟨moves, hlayout, hblocks⟩ := htakes.layout
    have hsightings := htakes.sightings
    rw [hlines] at hblocks hsightings
    -- the last move finishes the script that is being put together
    refine ⟨htakes.vocabulary, ?_, Layout.newScript_nesting _, moves ++ [.newScript], ?_, ?_⟩
    · simpa [Workspace.newScript, Workspace.new] using hsightings
    · have hrun : w₁.layout = Layout.run moves := hlayout
      rw [Layout.run_append_singleton, ← hrun]
      rfl
    · simpa [Layout.added_append_singleton, Move.block?, Workspace.new] using hblocks
  · cases h

end Vocabulary

end BlockScript
